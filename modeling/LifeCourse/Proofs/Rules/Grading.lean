import LifeCourse.Rules.Rubric
import Mathlib.Data.Int.Order.Basic
import Mathlib.Data.Prod.Lex

/-!
# The level that grades a number

A rubric may be written in any order, with several levels for one threshold.  A number is graded by
a level that it meets, of the highest rank, which is threshold first and grade second, and if several
levels have this rank by the one that was written last (`Level.Grades`).  There is at most one such
level (`Level.Grades.unique`).

## Two steps and one notion

The library finds this level in two steps.  A rubric is sorted when it is loaded, and a number is
looked up from the end.  Neither step alone says which level that is: the look-up takes the last level
that is met, whatever its rank, and only in a sorted list no other one ranks higher.  And that ties
go to the level written last is due to the sort, which keeps levels of one rank in order
(`filter_rank_sortLevels`).  So sorting does not change which level grades a number
(`Level.grades_sortLevels_iff`), and in a sorted list the look-up finds it
(`classify_eq_some_iff`).
-/

namespace LifeCourse

/-! ## Rank -/

/-- The rank of a level: its threshold, and then its grade. -/
def Level.rank (level : Level) : Int ×ₗ Int :=
  toLex (level.min.val, level.grade)

/-- Levels are sorted by rank. -/
theorem Level.le_iff_rank_le {a b : Level} : a.le b = true ↔ a.rank ≤ b.rank := by
  rw [le, rank, rank, Prod.Lex.toLex_le_toLex, Bool.or_eq_true, Bool.and_eq_true,
    decide_eq_true_eq, decide_eq_true_eq, beq_iff_eq]

/-- Levels of one rank have one threshold. -/
theorem Level.min_eq_of_rank_eq {a b : Level} (h : a.rank = b.rank) : a.min.val = b.min.val :=
  congrArg Prod.fst (toLex.injective h)

/-- **Levels of one rank stay in order when a rubric is sorted.** -/
theorem filter_rank_sortLevels (levels : List Level) (rank : Int ×ₗ Int) :
    ((sortLevels levels).filter fun level => level.rank = rank) =
      levels.filter fun level => level.rank = rank := by
  have htied : (levels.filter fun level => level.rank = rank).Pairwise fun a b => a.le b = true := by
    refine List.pairwise_of_forall_mem_list fun a ha b hb => Level.le_iff_rank_le.mpr ?_
    rw [of_decide_eq_true (List.mem_filter.mp ha).2, of_decide_eq_true (List.mem_filter.mp hb).2]
  have hkept := List.sublist_mergeSort Level.le_trans Level.le_total htied List.filter_sublist
  have hpart := hkept.filter fun level => level.rank = rank
  rw [List.filter_filter] at hpart
  simp only [Bool.and_self] at hpart
  exact (hpart.eq_of_length ((sortLevels_perm levels).filter _).length_eq.symm).symm

/-! ## The level that grades -/

/-- The level grades a number by a list of levels: the number meets it, it has the highest rank of
those that the number meets, and it is the last one of its rank. -/
structure Level.Grades (level : Level) (levels : List Level) (value : Int) : Prop where
  met : level.min.val ≤ value
  highest : ∀ other ∈ levels, other.min.val ≤ value → other.rank ≤ level.rank
  last : (levels.filter fun other => other.rank = level.rank).getLast? = some level

namespace Level.Grades

variable {level other : Level} {levels : List Level} {value : Int}

theorem mem (h : level.Grades levels value) : level ∈ levels :=
  (List.mem_filter.mp (List.mem_of_getLast? h.last)).1

/-- **One level grades a number.** -/
theorem unique (h : level.Grades levels value) (h' : other.Grades levels value) :
    level = other := by
  have hrank : level.rank = other.rank :=
    le_antisymm (h'.highest level h.mem h.met) (h.highest other h'.mem h'.met)
  have hlast := h.last
  rw [hrank, h'.last] at hlast
  exact (Option.some.inj hlast).symm

end Level.Grades

/-- **The order of a rubric counts only within a rank.**  So the level that grades a number is the
same before and after sorting. -/
theorem Level.grades_sortLevels_iff {level : Level} {levels : List Level} {value : Int} :
    level.Grades (sortLevels levels) value ↔ level.Grades levels value := by
  have hmem : ∀ other, other ∈ sortLevels levels ↔ other ∈ levels := fun _ =>
    (sortLevels_perm levels).mem_iff
  constructor
  · rintro ⟨hmet, hhighest, hlast⟩
    rw [filter_rank_sortLevels] at hlast
    exact ⟨hmet, fun other hother => hhighest other ((hmem other).mpr hother), hlast⟩
  · rintro ⟨hmet, hhighest, hlast⟩
    rw [← filter_rank_sortLevels] at hlast
    exact ⟨hmet, fun other hother => hhighest other ((hmem other).mp hother), hlast⟩

/-! ## The look-up -/

/-- Nothing is found exactly if no level is met. -/
theorem classify_eq_none_iff {levels : List Level} {value : Int} :
    classify levels value = none ↔ ∀ level ∈ levels, ¬level.min.val ≤ value := by
  rw [classify, List.find?_eq_none]
  simp only [List.mem_reverse, Level.isMet, decide_eq_true_eq]

section Sorted

variable {levels : List Level} (hsorted : levels.Pairwise fun a b => a.le b = true)
include hsorted

/-- What is found from the end of a sorted rubric grades the number: those behind it are not met,
and those of its rank would be. -/
theorem grades_of_classify {level : Level} {value : Int} (h : classify levels value = some level) :
    level.Grades levels value := by
  obtain ⟨hmet, later, earlier, hsplit, hlater⟩ := List.find?_eq_some_iff_append.mp h
  have hmet : level.min.val ≤ value := of_decide_eq_true hmet
  have hunmet : ∀ other ∈ later.reverse, ¬other.min.val ≤ value := by
    intro other hother
    have hnot := hlater other (List.mem_reverse.mp hother)
    rw [Bool.not_eq_true', Level.isMet, decide_eq_false_iff_not] at hnot
    exact hnot
  have hlevels : levels = earlier.reverse ++ level :: later.reverse := by
    rw [← List.reverse_reverse levels, hsplit, List.reverse_append, List.reverse_cons,
      List.append_assoc, List.singleton_append]
  rw [hlevels] at hsorted ⊢
  refine ⟨hmet, fun other hother hothermet => ?_, ?_⟩
  · rcases List.mem_append.mp hother with hbefore | hother
    · have hle := (List.pairwise_append.mp hsorted).2.2 other hbefore level List.mem_cons_self
      exact Level.le_iff_rank_le.mp hle
    · rcases List.mem_cons.mp hother with rfl | hbehind
      · exact le_rfl
      · exact absurd hothermet (hunmet other hbehind)
  · have hnone : (later.reverse.filter fun other => other.rank = level.rank) = [] := by
      refine List.filter_eq_nil_iff.mpr fun other hother hrank => hunmet other hother ?_
      rwa [Level.min_eq_of_rank_eq (of_decide_eq_true hrank)]
    rw [List.filter_append, List.filter_cons_of_pos (by simp), hnone, List.getLast?_concat]

/-- **A sorted rubric is looked up from the end.** -/
theorem classify_eq_some_iff {level : Level} {value : Int} :
    classify levels value = some level ↔ level.Grades levels value := by
  refine ⟨grades_of_classify hsorted, fun h => ?_⟩
  cases hfound : classify levels value with
  | none => exact absurd h.met (classify_eq_none_iff.mp hfound level h.mem)
  | some found => rw [(grades_of_classify hsorted hfound).unique h]

/-- **A higher number is graded at least as high.** -/
theorem exists_classify_of_le {level : Level} {value value' : Int} (hle : value ≤ value')
    (h : classify levels value = some level) :
    ∃ level', classify levels value' = some level' ∧ level.rank ≤ level'.rank := by
  have hgrades := grades_of_classify hsorted h
  have hmet : level.min.val ≤ value' := le_trans hgrades.met hle
  cases hfound : classify levels value' with
  | none => exact absurd hmet (classify_eq_none_iff.mp hfound level hgrades.mem)
  | some level' =>
    exact ⟨level', rfl, (grades_of_classify hsorted hfound).highest level hgrades.mem hmet⟩

end Sorted

/-- **A rubric grades by the level it should, in whatever order it is written.** -/
theorem classify_sortLevels_eq_some_iff {levels : List Level} {value : Int} {level : Level} :
    classify (sortLevels levels) value = some level ↔ level.Grades levels value := by
  rw [classify_eq_some_iff (sortLevels_pairwise levels), Level.grades_sortLevels_iff]

/-- A number that meets no level is not graded. -/
theorem classify_sortLevels_eq_none_iff {levels : List Level} {value : Int} :
    classify (sortLevels levels) value = none ↔ ∀ level ∈ levels, ¬level.min.val ≤ value := by
  rw [classify_eq_none_iff]
  exact ⟨fun h level hmem => h level ((sortLevels_perm levels).mem_iff.mpr hmem),
    fun h level hmem => h level ((sortLevels_perm levels).mem_iff.mp hmem)⟩

end LifeCourse
