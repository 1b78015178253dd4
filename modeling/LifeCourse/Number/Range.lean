/-!
# The 32-bit range

Every id, grade and stat of a rule document is a whole number that fits 32 bits.
The library computes with `Int` and says where the bound matters: a number read
from a document must lie in the range (`InRange`), and a stat that would leave it
stops at the end it was about to pass (`saturate`).  Nothing ever wraps around.

The two facts used later are `saturate_inRange` and `saturate_eq_self`: the result
always fits, and a value that fits already is kept.
-/

namespace LifeCourse
namespace Range

/-- The least number that fits. -/
def least : Int := -2147483648

/-- The greatest number that fits. -/
def greatest : Int := 2147483647

theorem zero_le_greatest : 0 ≤ greatest := by decide

theorem one_le_greatest : 1 ≤ greatest := by decide

/-- A number that fits 32 bits. -/
def InRange (n : Int) : Prop := least ≤ n ∧ n ≤ greatest

instance (n : Int) : Decidable (InRange n) := inferInstanceAs (Decidable (_ ∧ _))

/-- The number of the range nearest to `n`. -/
def saturate (n : Int) : Int := max least (min n greatest)

theorem saturate_inRange (n : Int) : InRange (saturate n) := by
  unfold InRange saturate least greatest
  omega

theorem saturate_eq_self {n : Int} (h : InRange n) : saturate n = n := by
  unfold InRange least greatest at h
  unfold saturate least greatest
  omega

theorem saturate_mono {m n : Int} (h : m ≤ n) : saturate m ≤ saturate n := by
  unfold saturate
  omega

end Range

/-- The first number beyond 64 unsigned bits, two to the 64th: counts, pages and seeds
lie below it. -/
def wordLimit : Nat := 18446744073709551616

/-- The first number beyond 64 bits with a sign, two to the 63rd. -/
def signedLimit : Nat := 9223372036854775808

end LifeCourse
