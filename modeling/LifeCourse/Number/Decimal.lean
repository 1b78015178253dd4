import LifeCourse.Number.Range

/-!
# Numbers written in decimal

Ids, stats and weights also appear inside texts: in table keys, in conditions, in
`"10*0.5"`.  This module reads them, and writes whole numbers.

* A whole number is an optional sign and at least one digit, nothing else; it must
  fit 32 bits.  `readWhole_writeWhole` says that what is written is read back.
* A decimal is an optional sign, digits with an optional point, at least one digit
  before or after it, and an optional exponent; or the words `inf`, `infinity`,
  `nan` in any case.  It is rounded to the nearest float, and beyond the largest
  float it is infinite.

Only the ten ASCII digits are digits.
-/

namespace LifeCourse
namespace Decimal

/-- A number of decimal digits, of which there is at least one. -/
def readDigits (s : List Char) : Option Nat :=
  if s ≠ [] ∧ s.all Char.isDigit then some (Nat.ofDigitChars 10 s 0) else none

/-- Splits off a sign; the first part says whether it was a minus. -/
def splitSign : List Char → Bool × List Char
  | '-' :: rest => (true, rest)
  | '+' :: rest => (false, rest)
  | s => (false, s)

/-- A whole number of any size. -/
def readInteger (s : List Char) : Option Int :=
  let (negative, digits) := splitSign s
  (readDigits digits).map fun (n : Nat) => if negative then -(n : Int) else (n : Int)

/-- A whole number that fits 32 bits. -/
def readWhole (s : List Char) : Option Int :=
  (readInteger s).filter fun n => decide (Range.InRange n)

/-- The digits of a whole number, after a minus if it is negative. -/
def writeWhole (n : Int) : List Char :=
  if n < 0 then '-' :: Nat.toDigits 10 n.natAbs else Nat.toDigits 10 n.natAbs

/-- The text of a whole number. -/
def written (n : Int) : String :=
  String.ofList (writeWhole n)

/-! ## What is written is read back -/

theorem readDigits_toDigits (n : Nat) : readDigits (Nat.toDigits 10 n) = some n := by
  have hall : (Nat.toDigits 10 n).all Char.isDigit = true :=
    List.all_eq_true.mpr fun c hc => Nat.isDigit_of_mem_toDigits (by decide) (by decide) hc
  simp [readDigits, hall, Nat.toDigits_ne_nil,
    Nat.ofDigitChars_toDigits (by decide : 1 < 10) (by decide : 10 ≤ 10)]

/-- A text of digits begins with no sign. -/
theorem splitSign_of_isDigit {s : List Char} (h : s.all Char.isDigit) :
    splitSign s = (false, s) := by
  match s with
  | [] => rfl
  | c :: rest =>
    have hc : c.isDigit = true := by simpa using (List.all_eq_true.mp h) c (by simp)
    unfold splitSign
    split
    · rename_i heq; cases heq; exact absurd hc (by decide)
    · rename_i heq; cases heq; exact absurd hc (by decide)
    · rfl

theorem readInteger_writeWhole (n : Int) : readInteger (writeWhole n) = some n := by
  have hall : (Nat.toDigits 10 n.natAbs).all Char.isDigit = true :=
    List.all_eq_true.mpr fun c hc => Nat.isDigit_of_mem_toDigits (by decide) (by decide) hc
  unfold readInteger writeWhole
  by_cases h : n < 0
  · have hn : -(n.natAbs : Int) = n := by omega
    simp only [if_pos h, splitSign, readDigits_toDigits, Option.map_some, if_true, hn]
  · have hn : (n.natAbs : Int) = n := by omega
    simp only [if_neg h, splitSign_of_isDigit hall, readDigits_toDigits, Option.map_some,
      Bool.false_eq_true, if_false, hn]

theorem readWhole_writeWhole {n : Int} (h : Range.InRange n) :
    readWhole (writeWhole n) = some n := by
  simp [readWhole, readInteger_writeWhole, h]

/-! ## Fractions -/

/-- An exponent: a sign and digits. -/
def readExponent (s : List Char) : Option Int :=
  readInteger s

/-- The value of `digits · 10 ^ exponent`, rounded to the nearest float. -/
def scale (digits : Nat) (exponent : Int) : Float :=
  Float.ofScientific digits (decide (exponent < 0)) exponent.natAbs

/-- The float nearest to a whole number. -/
def ofWhole (n : Int) : Float :=
  if n < 0 then -scale n.natAbs 0 else scale n.natAbs 0

/-- An unsigned decimal of digits. -/
def readUnsigned (s : List Char) : Option Float := do
  let whole := s.takeWhile Char.isDigit
  let rest := s.dropWhile Char.isDigit
  let (fraction, rest) := match rest with
    | '.' :: rest => (rest.takeWhile Char.isDigit, rest.dropWhile Char.isDigit)
    | rest => ([], rest)
  let digits ← readDigits (whole ++ fraction)
  let exponent ← match rest with
    | [] => some 0
    | c :: rest => if c = 'e' ∨ c = 'E' then readExponent rest else none
  return scale digits (exponent - fraction.length)

/-- An unsigned decimal, or a word for a value that no digits write. -/
def readMagnitude (s : List Char) : Option Float :=
  match String.ofList (s.map Char.toLower) with
  | "inf" => some (1 / 0)
  | "infinity" => some (1 / 0)
  | "nan" => some (0 / 0)
  | _ => readUnsigned s

/-- A decimal. -/
def readFloat (s : List Char) : Option Float :=
  let (negative, magnitude) := splitSign s
  (readMagnitude magnitude).map fun x => if negative then -x else x

end Decimal
end LifeCourse
