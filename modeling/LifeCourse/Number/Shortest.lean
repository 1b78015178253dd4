import LifeCourse.Number.Range

/-!
# The shortest decimal of a float

A weight in a message is written with the fewest digits that still read back as the
same float.  A finite positive float is `mantissa · 2 ^ exponent`; the numbers that
round to it form an interval around it, with its ends exactly when the mantissa is
even.  For one digit, two digits and so on the two neighbours of the value on that
decimal grid are tested in exact whole-number arithmetic, and the first grid with a
hit wins: if any point of a grid lies in the interval, one of the value's two
neighbours does.  Of two hits the nearer one is taken, and the upper one of two
equally near.

## Two layouts

`plain` writes the digits positionally, however long that is, and whole values
without a point.  `exact` keeps a point in whole values and goes over to an
exponent from 10^16 on and below 10^-4.
-/

namespace LifeCourse
namespace Shortest

/-- A positive number `mantissa · 2 ^ exponent`, with the interval that rounds to it. -/
structure Binary where
  mantissa : Nat
  exponent : Int
  /-- The next smaller float is half as far away as the next larger one. -/
  narrowBelow : Bool

/-- The leading bit of a mantissa, two to the 52nd, which a float does not store. -/
def hiddenBit : Nat := 4503599627370496

/-- The absolute value of a finite float. -/
def Binary.ofFloat (x : Float) : Binary :=
  let bits := x.toBits.toNat % signedLimit
  let field : Nat := bits / hiddenBit
  let fraction : Nat := bits % hiddenBit
  if field = 0 then ⟨fraction, -1074, false⟩
  else ⟨fraction + hiddenBit, (field : Int) - 1075, fraction = 0 && 1 < field⟩

/-- `power b e` is the positive part of `b ^ e`: the factor of a numerator. -/
def power (b : Nat) (e : Int) : Nat :=
  Nat.pow b e.toNat

/-- A positive decimal `digits · 10 ^ exponent`. -/
structure Decimal where
  digits : Nat
  exponent : Int

/-- The number of digits before the point; for a fraction, minus the number of
zeros after it. -/
def Binary.places (x : Binary) : Int :=
  let shifted := x.mantissa * power 2 x.exponent * power 10 400 / power 2 (-x.exponent)
  (Nat.toDigits 10 shifted).length - 400

/-- The neighbour of `x` on the grid of multiples of `10 ^ step` that rounds to it,
if there is one.  Everything is counted in quarters of the mantissa's unit. -/
def Binary.onGrid (x : Binary) (step : Int) : Option Nat :=
  let unit := power 2 x.exponent * power 10 (-step)
  let cell := 4 * power 2 (-x.exponent) * power 10 step
  let value := 4 * x.mantissa * unit
  let low := (4 * x.mantissa - if x.narrowBelow then 1 else 2) * unit
  let high := (4 * x.mantissa + 2) * unit
  let inside (n : Nat) : Bool :=
    if x.mantissa % 2 = 0 then low ≤ n * cell && n * cell ≤ high
    else low < n * cell && n * cell < high
  let below := value / cell
  match inside below, inside (below + 1) with
  | true, true => if 2 * (value % cell) < cell then some below else some (below + 1)
  | true, false => some below
  | false, true => some (below + 1)
  | false, false => none

/-- The shortest decimal that rounds to `x`: seventeen digits always suffice. -/
def Binary.shortest (x : Binary) : Decimal :=
  let places := x.places
  let attempt (count : Nat) : Option Decimal :=
    let step := places - 1 - (count : Int)
    (x.onGrid step).map fun n => ⟨n, step⟩
  ((List.range 17).findSome? attempt).getD ⟨0, 0⟩

/-- The digits of a decimal without trailing zeros, and how many of them (or of
zeros after them) stand before the point. -/
def Decimal.layout (d : Decimal) : List Char × Int :=
  let digits := Nat.toDigits 10 d.digits
  ((digits.reverse.dropWhile (· = '0')).reverse, digits.length + d.exponent)

/-- Digits with the point where it belongs; a whole number has none. -/
def positional (digits : List Char) (places : Int) : List Char :=
  if places ≤ 0 then '0' :: '.' :: List.replicate places.natAbs '0' ++ digits
  else if digits.length ≤ places.toNat then
    digits ++ List.replicate (places.toNat - digits.length) '0'
  else digits.take places.toNat ++ '.' :: digits.drop places.toNat

/-- A decimal written positionally, however long that is. -/
def Decimal.plain (d : Decimal) : List Char :=
  let (digits, places) := d.layout
  positional digits places

/-- A decimal with a point, or from 10^16 on and below 10^-4 with an exponent. -/
def Decimal.exact (d : Decimal) : List Char :=
  let (digits, places) := d.layout
  if 16 < places ∨ places ≤ -4 then
    let exponent := places - 1
    let sign := if exponent < 0 then ['-'] else []
    let fraction := if digits.length = 1 then [] else '.' :: digits.drop 1
    digits.take 1 ++ fraction ++ 'e' :: sign ++ Nat.toDigits 10 exponent.natAbs
  else if digits.length ≤ places.toNat then positional digits places ++ ['.', '0']
  else positional digits places

/-- A float by the layout of its digits, with the given text for zero. -/
def write (zero : List Char) (layout : Decimal → List Char) (x : Float) : String :=
  if x.isNaN then "NaN"
  else
    let magnitude :=
      if x.isInf then ['i', 'n', 'f']
      else if x == 0 then zero
      else layout (Binary.ofFloat x).shortest
    String.ofList (if signedLimit ≤ x.toBits.toNat then '-' :: magnitude else magnitude)

/-- A float written positionally: `0.5`, `3`, `-0`, `inf`, `NaN`. -/
def plain (x : Float) : String :=
  write ['0'] Decimal.plain x

/-- A float that shows itself as one: `0.5`, `3.0`, `-0.0`, `1e16`, `inf`, `NaN`. -/
def exact (x : Float) : String :=
  write ['0', '.', '0'] Decimal.exact x

end Shortest
end LifeCourse
