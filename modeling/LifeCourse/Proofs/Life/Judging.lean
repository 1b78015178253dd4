import LifeCourse.Life.Judgement
import LifeCourse.Proofs.Rules.Grading
import LifeCourse.Proofs.Rules.Representation

/-!
# How a life is judged

After a life seven values are judged, the highest ones of six stats and the score.  A value has a
judgement if its code has a rubric and the value meets a level of it (`Ruleset.Judges`), and then the
judgement has the grade and the text of the level that grades the value.

A rubric is sorted when it is loaded.  What its author wrote is therefore not in the ruleset any more,
but it is what the rubric means: among levels of one threshold and one grade the one that was written
last counts.  `Ruleset.Wrote` says what was written, through all overlays, and the judgements of a
life grade by that (`judgements_of_loaded`).
-/

namespace LifeCourse

variable {rules : Ruleset}

/-! ## Rubrics as they were written -/

/-- The levels that a draft has for a key; of two rubrics with one key the later one counts. -/
def Draft.levels? (draft : Draft) (key : String) : Option (List Level) :=
  (draft.rubrics.reverse.find? fun rubric => rubric.1 = key).map fun rubric =>
    rubric.2.map LevelDraft.build

/-- The rubric of a key was written as these levels, in this order. -/
inductive Ruleset.Wrote : Ruleset → String → List Level → Prop where
  | draft {draft : Draft} {rules : Ruleset} {key : String} {levels : List Level}
      (hbuild : draft.build = .ok rules) (hlevels : draft.levels? key = some levels) :
      Wrote rules key levels
  | overlay {base overlay : Ruleset} {key : String} {levels : List Level}
      (h : Wrote overlay key levels) : Wrote (base.merge overlay) key levels
  | base {base overlay : Ruleset} {key : String} {levels : List Level} (h : Wrote base key levels)
      (hnone : overlay.rubrics.find? key = none) : Wrote (base.merge overlay) key levels

/-- A rubric that is built is what was written, sorted. -/
theorem Draft.find?_rubrics_of_build {draft : Draft} (h : draft.build = .ok rules) (key : String) :
    rules.rubrics.find? key = (draft.levels? key).map sortLevels := by
  obtain ⟨-, -, -, -, -, hrubrics⟩ := Draft.build_eq_ok_iff.mp h
  rw [hrubrics, rubricTable, Table.find?_ofList, ← List.map_reverse, List.find?_map, Option.map_map,
    levels?, Option.map_map]
  rfl

/-- **Every rubric of loaded rules is what was written, sorted.** -/
theorem Ruleset.Loaded.exists_wrote (h : rules.Loaded) {key : String} {kept : List Level}
    (hfind : rules.rubrics.find? key = some kept) :
    ∃ levels, rules.Wrote key levels ∧ kept = sortLevels levels := by
  induction h with
  | standard => cases hfind
  | build hbuild =>
    rw [Draft.find?_rubrics_of_build hbuild] at hfind
    obtain ⟨levels, hlevels, rfl⟩ := Option.map_eq_some_iff.mp hfind
    exact ⟨levels, .draft hbuild hlevels, rfl⟩
  | merge _ _ ihbase ihoverlay =>
    rw [Ruleset.merge, Table.find?_merge] at hfind
    rcases Option.or_eq_some_iff.mp hfind with hfind | ⟨hnone, hfind⟩
    · obtain ⟨levels, hwrote, rfl⟩ := ihoverlay hfind
      exact ⟨levels, .overlay hwrote, rfl⟩
    · obtain ⟨levels, hwrote, rfl⟩ := ihbase hfind
      exact ⟨levels, .base hwrote hnone, rfl⟩

/-! ## One value -/

/-- The value meets a level of the rubric that the code has. -/
def Ruleset.Judges (rules : Ruleset) (code : String) (value : Int) : Prop :=
  ∃ levels, rules.rubric? code = some levels ∧
    ∃ level ∈ levels, level.min.val ≤ Range.saturate value

instance (rules : Ruleset) (code : String) (value : Int) : Decidable (rules.Judges code value) :=
  decidable_of_iff ((rules.rubric? code).any fun levels =>
      levels.any fun level => level.isMet (Range.saturate value)) <| by
    simp only [Option.any_eq_true, List.any_eq_true, Level.isMet, decide_eq_true_eq, Ruleset.Judges]

theorem judge_eq_some_iff {code : String} {value : Int} {judgement : Judgement} :
    judge rules code value = some judgement ↔
      ∃ levels, rules.rubric? code = some levels ∧
        ∃ level, classify levels (Range.saturate value) = some level ∧
          ⟨code, value, level.grade, level.text,
            progressOf value (rules.settings.progressScaleFor code)⟩ = judgement := by
  rw [judge]
  simp only [Option.bind_eq_bind, Option.bind_eq_some_iff, Option.pure_def, Option.some.injEq]

/-- A value has a judgement if it meets a level of its rubric. -/
theorem judge_eq_none_iff {code : String} {value : Int} :
    judge rules code value = none ↔ ¬rules.Judges code value := by
  rw [← Option.not_isSome_iff_eq_none, Option.isSome_iff_exists, not_iff_not]
  constructor
  · rintro ⟨judgement, h⟩
    obtain ⟨levels, hrubric, level, hfound, -⟩ := judge_eq_some_iff.mp h
    by_contra hnot
    have hunmet : classify levels (Range.saturate value) = none :=
      classify_eq_none_iff.mpr fun level hmem hmet => hnot ⟨levels, hrubric, level, hmem, hmet⟩
    rw [hunmet] at hfound
    cases hfound
  · rintro ⟨levels, hrubric, level, hmem, hmet⟩
    cases hfound : classify levels (Range.saturate value) with
    | none => exact absurd hmet (classify_eq_none_iff.mp hfound level hmem)
    | some found => exact ⟨_, judge_eq_some_iff.mpr ⟨levels, hrubric, found, hfound, rfl⟩⟩

/-- **A judgement has the grade and the text of the level that grades the value.** -/
theorem exists_grades_of_judge (hloaded : rules.Loaded) {code : String} {value : Int}
    {judgement : Judgement} (h : judge rules code value = some judgement) :
    ∃ (key : String) (levels : List Level) (level : Level),
      (key = Ruleset.highestKey code ∨ key = code) ∧ rules.Wrote key levels ∧
      rules.rubric? code = some (sortLevels levels) ∧
      level.Grades levels (Range.saturate value) ∧
      judgement.grade = level.grade ∧ judgement.text = level.text := by
  obtain ⟨kept, hrubric, level, hfound, rfl⟩ := judge_eq_some_iff.mp h
  obtain ⟨key, hkey, hfind⟩ : ∃ key, (key = Ruleset.highestKey code ∨ key = code) ∧
      rules.rubrics.find? key = some kept := by
    rw [Ruleset.rubric?] at hrubric
    rcases Option.or_eq_some_iff.mp hrubric with hfind | ⟨-, hfind⟩
    · exact ⟨_, .inl rfl, hfind⟩
    · exact ⟨_, .inr rfl, hfind⟩
  obtain ⟨levels, hwrote, rfl⟩ := hloaded.exists_wrote hfind
  exact ⟨key, levels, level, hkey, hwrote, hrubric, classify_sortLevels_eq_some_iff.mp hfound,
    rfl, rfl⟩

/-! ## All values -/

/-- **The judgements of a life are those of the values that have one, in order.** -/
theorem map_judgeAll (rules : Ruleset) (person : Person) :
    (judgeAll rules person).map (fun judgement => (judgement.code, judgement.value)) =
      (judgedValues person).filter fun judged => rules.Judges judged.1 judged.2 := by
  rw [judgeAll, List.map_filterMap, ← List.filterMap_eq_filter]
  refine List.filterMap_congr fun judged _ => ?_
  cases hjudge : judge rules judged.1 judged.2 with
  | none =>
    rw [Option.map_none, Option.guard, if_neg]
    exact mt of_decide_eq_true (judge_eq_none_iff.mp hjudge)
  | some judgement =>
    have hjudges : rules.Judges judged.1 judged.2 := by
      by_contra hnot
      rw [judge_eq_none_iff.mpr hnot] at hjudge
      cases hjudge
    obtain ⟨levels, -, level, -, rfl⟩ := judge_eq_some_iff.mp hjudge
    rw [Option.map_some, Option.guard, if_pos (decide_eq_true hjudges)]

/-- **How lives are judged.**  Sorting a rubric only permutes its levels.  A number that meets none
of them is not graded, and any other number is graded by the level that should do it: it has the
highest threshold of those that are met, of these the highest grade, and of these it was written
last.  A higher number is graded as well, and not by a lower level.

So under loaded rules the judgements of a life are those of the values that meet a level of a rubric
for them, in the order in which values are judged, and each has the grade and the text of the level
that grades the value by the levels as they were written. -/
theorem judgements_of_loaded :
    (∀ (levels : List Level) (value : Int),
      (sortLevels levels).Perm levels ∧
      (classify (sortLevels levels) value = none ↔ ∀ level ∈ levels, ¬level.min.val ≤ value) ∧
      (∀ level, classify (sortLevels levels) value = some level ↔ level.Grades levels value) ∧
      ∀ value' level, value ≤ value' → classify (sortLevels levels) value = some level →
        ∃ level', classify (sortLevels levels) value' = some level' ∧ level.rank ≤ level'.rank) ∧
    ∀ rules : Ruleset, rules.Loaded → ∀ person : Person,
      (judgeAll rules person).map (fun judgement => (judgement.code, judgement.value)) =
        [("CHR", person.highest .charm), ("INT", person.highest .intelligence),
          ("STR", person.highest .strength), ("MNY", person.highest .money),
          ("SPR", person.highest .spirit), ("AGE", person.highest .age),
          ("SUM", person.score)].filter (fun judged => rules.Judges judged.1 judged.2) ∧
      ∀ judgement ∈ judgeAll rules person, ∃ (key : String) (levels : List Level) (level : Level),
        (key = Ruleset.highestKey judgement.code ∨ key = judgement.code) ∧
        rules.Wrote key levels ∧ rules.rubric? judgement.code = some (sortLevels levels) ∧
        level.Grades levels (Range.saturate judgement.value) ∧
        judgement.grade = level.grade ∧ judgement.text = level.text := by
  refine ⟨fun levels value => ⟨sortLevels_perm levels, classify_sortLevels_eq_none_iff,
    fun level => classify_sortLevels_eq_some_iff, fun value' level hle h =>
      exists_classify_of_le (sortLevels_pairwise levels) hle h⟩,
    fun rules hloaded person => ⟨map_judgeAll rules person, fun judgement hmem => ?_⟩⟩
  obtain ⟨judged, -, hjudge⟩ := List.mem_filterMap.mp hmem
  have hgrades := exists_grades_of_judge hloaded hjudge
  obtain ⟨levels, -, level, -, rfl⟩ := judge_eq_some_iff.mp hjudge
  exact hgrades

/-! ## A rubric out of order -/

/-- The levels of a rubric of charm: not in order, and two of them alike but for their texts. -/
def untidyLevels : List LevelDraft :=
  [⟨⟨10, by decide⟩, 3, some "dazzling"⟩, ⟨⟨1, by decide⟩, 1, some "plain"⟩,
    ⟨⟨-5, by decide⟩, 9, some "odd"⟩, ⟨⟨1, by decide⟩, 1, some "pretty"⟩]

/-- A draft with this rubric. -/
def untidyDraft : Draft where
  rubrics := [("CHR", untidyLevels)]

/-- The rules of the draft. -/
def untidyRules : Ruleset :=
  { Ruleset.standard with
    rubrics := .ofList [("CHR", sortLevels (untidyLevels.map LevelDraft.build))] }

/-- A person of some charm. -/
def prettyPerson : Person :=
  (Person.unborn .standard).allocate .charm 5

/-- The level that grades this person. -/
def prettyLevel : Level :=
  ⟨⟨1, by decide⟩, 1, "pretty"⟩

theorem grades_prettyLevel :
    prettyLevel.Grades (untidyLevels.map LevelDraft.build) (Range.saturate 5) where
  met := by decide
  highest := fun other hmem hmet => Level.le_iff_rank_le.mp <| by
    revert other
    decide
  last := rfl

/-- Of two levels that are alike but for their texts the one grades that was written last, and no
other value of the person is judged. -/
theorem judgements_of_loaded_untidy : untidyDraft.build = .ok untidyRules ∧
    (judgeAll untidyRules prettyPerson).map
      (fun judgement => (judgement.code, judgement.value)) = [("CHR", 5)] ∧
    ∀ judgement ∈ judgeAll untidyRules prettyPerson,
      judgement.grade = 1 ∧ judgement.text = "pretty" := by
  have hbuild : untidyDraft.build = .ok untidyRules := rfl
  obtain ⟨-, hjudged⟩ := judgements_of_loaded
  obtain ⟨hcodes, hgrades⟩ := hjudged untidyRules (.build hbuild) prettyPerson
  have hcharm : untidyRules.Judges "CHR" 5 :=
    ⟨_, rfl, prettyLevel, (sortLevels_perm _).mem_iff.mpr grades_prettyLevel.mem, by decide⟩
  have hother : ∀ code value, untidyRules.rubric? code = none → ¬untidyRules.Judges code value := by
    rintro code value hnone ⟨levels, hrubric, -⟩
    rw [hnone] at hrubric
    cases hrubric
  have honly : (judgeAll untidyRules prettyPerson).map
      (fun judgement => (judgement.code, judgement.value)) = [("CHR", 5)] := by
    refine hcodes.trans ((List.filter_cons_of_pos (by exact decide_eq_true hcharm)).trans ?_)
    refine congrArg (("CHR", 5) :: ·) (List.filter_eq_nil_iff.mpr fun judged hmem hjudges => ?_)
    refine hother judged.1 judged.2 ?_ (of_decide_eq_true hjudges)
    simp only [List.mem_cons, List.not_mem_nil, or_false] at hmem
    rcases hmem with rfl | rfl | rfl | rfl | rfl | rfl <;> rfl
  refine ⟨hbuild, honly, fun judgement hmem => ?_⟩
  have hpair : (judgement.code, judgement.value) ∈ [("CHR", (5 : Int))] := by
    rw [← honly]
    exact List.mem_map_of_mem hmem
  obtain ⟨hcode, hvalue⟩ := Prod.mk.inj (List.mem_singleton.mp hpair)
  obtain ⟨key, levels, level, -, -, hrubric, hlevel, hgrade, htext⟩ := hgrades judgement hmem
  rw [hcode] at hrubric
  rw [hvalue, ← Level.grades_sortLevels_iff, ← Option.some.inj hrubric,
    Level.grades_sortLevels_iff] at hlevel
  rw [hgrade, htext, hlevel.unique grades_prettyLevel]
  exact ⟨rfl, rfl⟩

end LifeCourse
