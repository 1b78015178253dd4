import LifeCourse.Number.Range

/-!
# Rubrics

A rubric grades a number by thresholds.  Its levels are kept in ascending order of
threshold, and of grade where thresholds are equal, so the last level whose threshold
the number meets is the right one: `classify` looks from the end.

Thresholds fit 32 bits, and the level says so: a number beyond that range meets the same
thresholds as the end of the range it lies beyond.
-/

namespace LifeCourse

/-- A threshold with the grade and text for the numbers that meet it. -/
structure Level where
  min : { n : Int // Range.InRange n }
  grade : Int
  text : String

namespace Level

/-- Whether one level comes before another one, or could. -/
def le (a b : Level) : Bool :=
  a.min.val < b.min.val || (a.min.val == b.min.val && a.grade ≤ b.grade)

/-- Whether a number meets the threshold. -/
def isMet (level : Level) (value : Int) : Bool :=
  level.min.val ≤ value

theorem le_trans (a b c : Level) (hab : a.le b) (hbc : b.le c) : a.le c := by
  simp only [le, Bool.or_eq_true, decide_eq_true_eq, Bool.and_eq_true, beq_iff_eq] at *
  omega

theorem le_total (a b : Level) : a.le b || b.le a := by
  simp only [le, Bool.or_eq_true, decide_eq_true_eq, Bool.and_eq_true, beq_iff_eq]
  omega

end Level

/-- The levels in the order that `classify` relies on; levels alike in threshold and
grade keep their order. -/
def sortLevels (levels : List Level) : List Level :=
  levels.mergeSort Level.le

/-- The last level that a number meets. -/
def classify (levels : List Level) (value : Int) : Option Level :=
  levels.reverse.find? fun level => level.isMet value

theorem sortLevels_perm (levels : List Level) : (sortLevels levels).Perm levels :=
  List.mergeSort_perm levels Level.le

theorem sortLevels_pairwise (levels : List Level) :
    (sortLevels levels).Pairwise fun a b => a.le b :=
  List.pairwise_mergeSort Level.le_trans Level.le_total levels

end LifeCourse
