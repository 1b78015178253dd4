import LifeCourse.Proofs.Life.Judging

/-!
# Numbers beyond all thresholds

Thresholds fit 32 bits, a score need not.  Before it is compared with them it is brought to the
nearest number that fits.  That changes nothing at the upper end: a number that is greater than all
that fit meets every threshold, and so does the greatest one.  The two ends are not alike, though,
because a threshold is met by the numbers from itself on.  A number that is less than all that fit
meets no threshold, but the least one meets the least of all thresholds, which is itself
(`Range.le_saturate_iff`).

So a judgement is right (`Ruleset.JudgesTruly`) unless the number lies below the range and the
rubric has a level for the least number of the range.  Then no level is met, and the number is graded
all the same, as if it were that least number (`judge_exact_iff`).
-/

namespace LifeCourse

/-- A threshold is met by the nearest number that fits if it is met by the number itself, and the
least of all thresholds also by what lies below it. -/
theorem Range.le_saturate_iff {n value : Int} (hn : InRange n) :
    n ≤ saturate value ↔ n ≤ value ∨ value < least ∧ n = least := by
  unfold InRange least greatest at hn
  unfold saturate least greatest
  omega

/-- The rubric for a code has a level for the least number that fits. -/
def Ruleset.GradesLeast (rules : Ruleset) (code : String) : Prop :=
  ∃ levels, rules.rubric? code = some levels ∧ ∃ level ∈ levels, level.min.val = Range.least

instance (rules : Ruleset) (code : String) : Decidable (rules.GradesLeast code) :=
  decidable_of_iff ((rules.rubric? code).any fun levels =>
      levels.any fun level => level.min.val = Range.least) <| by
    simp only [Option.any_eq_true, List.any_eq_true, decide_eq_true_eq, Ruleset.GradesLeast]

/-- What a value is judged is right by the value itself.  There is no judgement exactly if there is
no rubric or the value meets no level of it, and else the judgement has the grade and the text of a
level that the value meets, such that it meets none of a higher rank. -/
structure Ruleset.JudgesTruly (rules : Ruleset) (code : String) (value : Int) : Prop where
  none_iff : judge rules code value = none ↔
    ∀ levels, rules.rubric? code = some levels → ∀ level ∈ levels, ¬level.min.val ≤ value
  graded : ∀ judgement, judge rules code value = some judgement →
    ∃ (levels : List Level) (level : Level), rules.rubric? code = some levels ∧ level ∈ levels ∧
      level.min.val ≤ value ∧
      (∀ other ∈ levels, other.min.val ≤ value → other.rank ≤ level.rank) ∧
      judgement.grade = level.grade ∧ judgement.text = level.text

/-- A judgement is that of the level that grades the nearest number that fits. -/
theorem exists_grades_saturate {rules : Ruleset} (hloaded : rules.Loaded) {code : String}
    {value : Int} {judgement : Judgement} (h : judge rules code value = some judgement) :
    ∃ (levels : List Level) (level : Level), rules.rubric? code = some levels ∧
      level.Grades levels (Range.saturate value) ∧
      judgement.grade = level.grade ∧ judgement.text = level.text := by
  obtain ⟨_, levels, level, -, -, hrubric, hgrades, hgrade, htext⟩ :=
    exists_grades_of_judge hloaded h
  exact ⟨_, level, hrubric, Level.grades_sortLevels_iff.mpr hgrades, hgrade, htext⟩

/-- What is judged is right where the nearest number that fits meets the same levels. -/
theorem Ruleset.Loaded.judgesTruly {rules : Ruleset} (hloaded : rules.Loaded) {code : String}
    {value : Int} (hsame : ∀ levels, rules.rubric? code = some levels → ∀ level ∈ levels,
      (level.min.val ≤ Range.saturate value ↔ level.min.val ≤ value)) :
    rules.JudgesTruly code value where
  none_iff := by
    rw [judge_eq_none_iff]
    constructor
    · intro hnone levels hrubric level hmem hmet
      exact hnone ⟨levels, hrubric, level, hmem, (hsame levels hrubric level hmem).mpr hmet⟩
    · rintro hunmet ⟨levels, hrubric, level, hmem, hmet⟩
      exact hunmet levels hrubric level hmem ((hsame levels hrubric level hmem).mp hmet)
  graded judgement hjudge := by
    obtain ⟨levels, level, hrubric, hgrades, hgrade, htext⟩ := exists_grades_saturate hloaded hjudge
    have hsame := hsame levels hrubric
    refine ⟨levels, level, hrubric, hgrades.mem, (hsame level hgrades.mem).mp hgrades.met,
      fun other hother hmet => ?_, hgrade, htext⟩
    exact hgrades.highest other hother ((hsame other hother).mpr hmet)

/-- Below the range a rubric that has a level for the least number grades what no level of it is met
by. -/
theorem Ruleset.GradesLeast.not_judgesTruly {rules : Ruleset} {code : String} {value : Int}
    (hleast : rules.GradesLeast code) (hvalue : value < Range.least) :
    ¬rules.JudgesTruly code value := by
  intro htrue
  have hnone : judge rules code value = none := by
    refine htrue.none_iff.mpr fun levels _ level _ hmet => ?_
    have hfits : Range.least ≤ level.min.val := level.min.property.1
    omega
  obtain ⟨levels, hrubric, level, hmem, hmin⟩ := hleast
  refine judge_eq_none_iff.mp hnone ⟨levels, hrubric, level, hmem, ?_⟩
  exact (Range.le_saturate_iff level.min.property).mpr (.inr ⟨hvalue, hmin⟩)

/-- Below the range a number is brought to its lower end. -/
theorem Range.saturate_of_lt {value : Int} (h : value < least) : saturate value = least := by
  unfold least at h
  unfold saturate least greatest
  omega

/-- **Where a judgement is right.**  Under loaded rules a number of any size is judged as it should
be by its own value, unless it lies below all numbers that fit 32 bits and its rubric has a level for
the least of these.  Below all numbers that fit, every judgement is the one of that least number. -/
theorem judge_exact_iff {rules : Ruleset} (hloaded : rules.Loaded) (code : String) (value : Int) :
    (rules.JudgesTruly code value ↔ ¬(value < Range.least ∧ rules.GradesLeast code)) ∧
    (value < Range.least → ∀ judgement, judge rules code value = some judgement →
      ∃ (levels : List Level) (level : Level), rules.rubric? code = some levels ∧
        level.Grades levels Range.least ∧
        judgement.grade = level.grade ∧ judgement.text = level.text) := by
  refine ⟨⟨fun htrue hbelow => hbelow.2.not_judgesTruly hbelow.1 htrue, fun hnot => ?_⟩,
    fun hvalue judgement hjudge => ?_⟩
  · refine hloaded.judgesTruly fun levels hrubric level hmem => ?_
    rw [Range.le_saturate_iff level.min.property, or_iff_left]
    rintro ⟨hvalue, hmin⟩
    exact hnot ⟨hvalue, levels, hrubric, level, hmem, hmin⟩
  · rw [← Range.saturate_of_lt hvalue]
    exact exists_grades_saturate hloaded hjudge

/-! ## A rubric of the score for every number that fits -/

theorem Range.inRange_least : InRange least := by decide

/-- A level that every number that fits should meet. -/
def leastLevel : LevelDraft :=
  ⟨⟨Range.least, Range.inRange_least⟩, 1, some "a life"⟩

/-- Rules whose only rubric has this level. -/
def leastRules : Ruleset :=
  { Ruleset.standard with rubrics := .ofList [("SUM", [leastLevel.build])] }

theorem loaded_leastRules : leastRules.Loaded :=
  .build (Draft.build_of_level "SUM" leastLevel)

theorem gradesLeast_leastRules : leastRules.GradesLeast "SUM" :=
  ⟨_, rfl, leastLevel.build, List.mem_cons_self, rfl⟩

/-- A score above the range is judged as it should be, and one below it gets the judgement of the
least number. -/
theorem judge_exact_iff_extremes : leastRules.Loaded ∧
    (leastRules.JudgesTruly "SUM" 4294967296 ∧ judge leastRules "SUM" 4294967296 ≠ none) ∧
    (-4294967236 < Range.least ∧ ∃ judgement, judge leastRules "SUM" (-4294967236) = some judgement ∧
      judgement.grade = 1 ∧ judgement.text = "a life") := by
  have htrue := (judge_exact_iff loaded_leastRules "SUM" 4294967296).1.mpr (by decide)
  refine ⟨loaded_leastRules, ⟨htrue, fun hnone => ?_⟩, by decide, ?_⟩
  · exact htrue.none_iff.mp hnone _ rfl leastLevel.build List.mem_cons_self (by decide)
  · have hsome : judge leastRules "SUM" (-4294967236) ≠ none := fun hnone =>
      judge_eq_none_iff.mp hnone ⟨_, rfl, leastLevel.build, List.mem_cons_self, by decide⟩
    obtain ⟨judgement, hjudge⟩ := Option.ne_none_iff_exists'.mp hsome
    obtain ⟨levels, level, hrubric, hgrades, hgrade, htext⟩ :=
      (judge_exact_iff loaded_leastRules "SUM" (-4294967236)).2 (by decide) judgement hjudge
    obtain rfl : [leastLevel.build] = levels := Option.some.inj hrubric
    obtain rfl := List.mem_singleton.mp hgrades.mem
    exact ⟨judgement, hjudge, hgrade, htext⟩

/-- A score below the range meets no level of the rubric, and there is a judgement of it. -/
theorem exists_not_judgesTruly :
    ¬∀ (rules : Ruleset) (code : String) (value : Int), rules.Loaded →
      -(signedLimit : Int) ≤ value → value < signedLimit → rules.JudgesTruly code value := by
  intro htrue
  exact gradesLeast_leastRules.not_judgesTruly (by decide)
    (htrue leastRules "SUM" (-4294967236) loaded_leastRules (by decide) (by decide))

end LifeCourse
