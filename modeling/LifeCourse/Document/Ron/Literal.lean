import LifeCourse.Document.Decoder
import LifeCourse.Document.Json
import LifeCourse.Document.Ron.Scanner

/-!
# Texts and numbers in RON

## Texts

A text stands between double quotes, where a backslash opens an escape, or after `r`
between as many hashes as it likes, where it does not.  A single character stands
between single quotes.  `length_lt_of_escape?` says that an escape uses up what it is
written with, so that a text between quotes is read to its end.

## Numbers

A whole number may have a base (`0x`, `0o`, `0b`) and underscores after its first
digit; where no sign makes sense none is allowed, not even a plus.  A decimal has
neither base nor underscores.

A number that is read for what it is is a whole number if it can be one that fits 64
bits, else a decimal.  What looks more like a decimal, because more of it could belong
to one, is not tried as a whole number.
-/

namespace LifeCourse
namespace Document
namespace Ron

/-! ## Escapes -/

/-- The character that a backslash and one character stand for. -/
def shortEscape? : Char → Option Char
  | '\'' => some '\''
  | '"' => some '"'
  | '\\' => some '\\'
  | 'n' => some '\n'
  | 'r' => some '\r'
  | 't' => some '\t'
  | '0' => some '\x00'
  | _ => none

/-- The character of a code point that at most six hexadecimal digits give. -/
def codePoint? (digits : List Char) : Option Char := do
  if digits = [] ∨ 6 < digits.length then none
  let n ← Json.hexNumber? digits
  if n.isValidChar then some (Char.ofNat n) else none

/-- A character of a code point, before the brace that ends it. -/
def isInBraces (c : Char) : Bool :=
  c != '\x7d'

/-- The character that an escape stands for, when its backslash has been read. -/
def escape? : List Char → Option (Char × List Char)
  | 'x' :: a :: b :: rest => (Json.hexNumber? [a, b]).map fun n => (Char.ofNat n, rest)
  | 'u' :: '\x7b' :: rest =>
    match rest.dropWhile isInBraces with
    | _ :: rest' => (codePoint? (rest.takeWhile isInBraces)).map fun c => (c, rest')
    | [] => none
  | c :: rest => (shortEscape? c).map fun c => (c, rest)
  | [] => none

theorem length_lt_of_escape? {cs rest : List Char} {c : Char} (h : escape? cs = some (c, rest)) :
    rest.length < cs.length := by
  unfold escape? at h
  split at h
  · obtain ⟨_, _, he⟩ := Option.map_eq_some_iff.mp h
    cases he
    simp only [List.length_cons]
    omega
  · rename_i inner
    split at h
    · rename_i drop
      obtain ⟨_, _, he⟩ := Option.map_eq_some_iff.mp h
      cases he
      have hle := (List.dropWhile_suffix (l := inner) isInBraces).length_le
      rw [drop] at hle
      simp only [List.length_cons] at hle ⊢
      omega
    · exact absurd h (by simp)
  · obtain ⟨_, _, he⟩ := Option.map_eq_some_iff.mp h
    cases he
    simp
  · exact absurd h (by simp)

/-! ## Texts -/

/-- The rest of a text between double quotes; what has been read of it is kept last
character first. -/
def quoted? (done : List Char) : List Char → Option (String × List Char)
  | [] => none
  | '"' :: rest => some (String.ofList done.reverse, rest)
  | '\\' :: rest =>
    match h : escape? rest with
    | some (c, rest') =>
      have := length_lt_of_escape? h
      quoted? (c :: done) rest'
    | none => none
  | c :: rest => quoted? (c :: done) rest
termination_by cs => cs.length

/-- The rest of a text that ends at a double quote and `hashes`; what has been read of it
is kept last character first. -/
def raw? (hashes done : List Char) : List Char → Option (String × List Char)
  | [] => none
  | c :: rest =>
    match if c = '"' then hashes.isPrefixOf? rest else none with
    | some rest => some (String.ofList done.reverse, rest)
    | none => raw? hashes (c :: done) rest

/-- The text at the beginning. -/
def text? : List Char → Option (String × List Char)
  | '"' :: rest => quoted? [] rest
  | 'r' :: rest =>
    match rest.dropWhile (· == '#') with
    | '"' :: rest' => raw? (rest.takeWhile (· == '#')) [] rest'
    | _ => none
  | _ => none

/-- Reads a text. -/
def text : Scanner String :=
  .ofOption text? (.expected .text)

/-- What follows the character between single quotes at the beginning. -/
def afterCharacter? : List Char → Option (List Char)
  | '\'' :: '\\' :: rest =>
    match escape? rest with
    | some (_, '\'' :: rest) => some rest
    | _ => none
  | '\'' :: c :: '\'' :: rest => if c = '\'' then none else some rest
  | _ => none

/-- Passes over a character between single quotes. -/
def character : Scanner Unit :=
  .ofOption (fun cs => (afterCharacter? cs).map fun rest => ((), rest)) .illFormed

/-! ## Whole numbers -/

/-- A character of a whole number, whatever its base. -/
def isIntegerChar (c : Char) : Bool :=
  (Json.hexValue? c).isSome || c == '_'

/-- The value of digits to a base; underscores are passed over. -/
def digits? (base : Nat) (digits : List Char) : Option Nat :=
  (digits.filter (· ≠ '_')).foldlM (fun n c => do
    let d ← Json.hexValue? c
    if d < base then some (base * n + d) else none) 0

/-- The digits of a number with a base. -/
def magnitudeOf? (base : Nat) (cs : List Char) : Option (Nat × List Char) :=
  match cs.takeWhile isIntegerChar with
  | [] => none
  | '_' :: _ => none
  | digits => (digits? base digits).map fun n => (n, cs.dropWhile isIntegerChar)

/-- The whole number without a sign at the beginning. -/
def magnitude? : List Char → Option (Nat × List Char)
  | '0' :: 'x' :: cs => magnitudeOf? 16 cs
  | '0' :: 'o' :: cs => magnitudeOf? 8 cs
  | '0' :: 'b' :: cs => magnitudeOf? 2 cs
  | cs => magnitudeOf? 10 cs

/-- The whole number at the beginning. -/
def integer? (cs : List Char) : Option (Int × List Char) :=
  let (negative, cs) := Decimal.splitSign cs
  (magnitude? cs).map fun (n, rest) => (if negative then -(n : Int) else (n : Int), rest)

/-! ## Decimals -/

/-- A character of a decimal. -/
def isDecimalChar (c : Char) : Bool :=
  c.isDigit || c == 'e' || c == 'E' || c == '.' || c == '+' || c == '-'

/-- The words for decimals that no digits write. -/
def decimalWords : List (String × Float) :=
  [("inf", 1 / 0), ("+inf", 1 / 0), ("-inf", -(1 / 0)),
   ("NaN", 0 / 0), ("+NaN", 0 / 0), ("-NaN", 0 / 0)]

/-- The decimal at the beginning. -/
def decimal? (cs : List Char) : Option (Float × List Char) :=
  match decimalWords.findSome? fun (word, x) => (afterWord? word cs).map fun rest => (x, rest) with
  | some found => some found
  | none =>
    (Decimal.readFloat (cs.takeWhile isDecimalChar)).map fun x => (x, cs.dropWhile isDecimalChar)

/-! ## Numbers read for what they are -/

/-- Whether a number is written with a sign. -/
def isSigned (cs : List Char) : Bool :=
  cs.head?.any fun c => c == '+' || c == '-'

/-- Whether a number looks like a decimal: more of it could belong to a decimal than to
a whole number. -/
def looksDecimal (cs : List Char) : Bool :=
  let (_, cs) := Decimal.splitSign cs
  (cs.takeWhile isIntegerChar).length < (cs.takeWhile isDecimalChar).length

/-- The bounds of a whole number that is read for what it is. -/
def Fits64 (signed : Bool) (n : Int) : Prop :=
  -(signedLimit : Int) ≤ n ∧ n < (if signed then (signedLimit : Int) else (wordLimit : Int))

instance (signed : Bool) (n : Int) : Decidable (Fits64 signed n) :=
  inferInstanceAs (Decidable (_ ∧ _))

/-- The number at the beginning. -/
def number? (cs : List Char) : Option (Datum × List Char) :=
  let whole := if looksDecimal cs then none else
    (integer? cs).filter fun (n, _) => decide (Fits64 (isSigned cs) n)
  match whole with
  | some (n, rest) => some (.whole n (isSigned cs), rest)
  | none => (decimal? cs).map fun (x, rest) => (.decimal x, rest)

end Ron
end Document
end LifeCourse
