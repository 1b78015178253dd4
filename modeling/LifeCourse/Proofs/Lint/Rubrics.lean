import LifeCourse.Life.Judgement
import LifeCourse.Lint.Report
import LifeCourse.Proofs.Rules.Coherence

/-!
# Rubrics that no one looks for

A life is judged by its stats and by its score, and for each code that is judged a rubric is looked
for under two keys, with an `H` in front of the code and without one (`IsRead`).  To take rubrics
away under other keys changes no judgement (`judgeAll_withoutRubrics`).  A rubric under one of these
keys may matter to everyone: if its one level is met by all numbers, it is the only judgement of any
life, and there is none without it (`judgeAll_lenientRules_ne_nil`,
`judgeAll_without_lenientRules`).  So these keys are exactly those that are not `Unread`.

## What the report says of them

The report has a notion of its own.  A rubric is called unused if its key is neither the code of the
score nor that of a stat, with an `H` or without (`Lint.isRubricKey_iff`).  This differs in three
keys from what is read (`Lint.isRead_iff`).  The score is looked for with an `H` first, like a stat,
but the report calls that key unused; life is a stat that is not judged, and the report does not
complain of its two keys.  Of every other key that a ruleset has the verdict is exact
(`Lint.unusedRubric_exact`).
-/

namespace LifeCourse

/-! ## Tables -/

namespace Table

variable {κ α : Type} [LE κ] [LT κ] [DecidableLT κ] [Std.IsLinearOrder κ] [Std.LawfulOrderLT κ]
  [DecidableEq κ]

/-- The table without the entries of some keys. -/
def without (keys : List κ) (table : Table κ α) : Table κ α :=
  ⟨table.entries.filter fun entry => entry.1 ∉ keys, table.ascending.filter _⟩

theorem find?_without (keys : List κ) (table : Table κ α) (k : κ) :
    (table.without keys).find? k = if k ∈ keys then none else table.find? k := by
  refine Option.ext fun a => ?_
  rw [find?_eq_some_iff, without, List.mem_filter, ← find?_eq_some_iff, decide_eq_true_eq]
  by_cases hk : k ∈ keys
  · simp [hk]
  · simp [hk]

end Table

/-- The rules without the rubrics of some keys. -/
def Ruleset.withoutRubrics (keys : List String) (rules : Ruleset) : Ruleset :=
  { rules with rubrics := rules.rubrics.without keys }

/-! ## Keys that are read -/

/-- The codes of what is judged. -/
def judgedCodes : List String :=
  Stat.judged.map Stat.code ++ [Ruleset.scoreCode]

theorem map_fst_judgedValues (person : Person) : (judgedValues person).map Prod.fst = judgedCodes :=
  rfl

/-- A rubric is looked for under the key when a life is judged. -/
def IsRead (key : String) : Prop :=
  ∃ code ∈ judgedCodes, key = Ruleset.highestKey code ∨ key = code

instance (key : String) : Decidable (IsRead key) :=
  inferInstanceAs (Decidable (∃ code ∈ judgedCodes, key = Ruleset.highestKey code ∨ key = code))

/-- No judgement of anyone under any rules changes when the rubric of the key is taken away. -/
def Unread (key : String) : Prop :=
  ∀ rules : Ruleset, rules.Loaded → ∀ person : Person,
    judgeAll (rules.withoutRubrics [key]) person = judgeAll rules person

/-- A code for which no rubric has been taken away has the rubric that it had. -/
theorem Ruleset.rubric?_withoutRubrics {keys : List String} {code : String}
    (hhighest : Ruleset.highestKey code ∉ keys) (hcode : code ∉ keys) (rules : Ruleset) :
    (rules.withoutRubrics keys).rubric? code = rules.rubric? code := by
  rw [rubric?, rubric?, withoutRubrics, Table.find?_without, Table.find?_without, if_neg hhighest,
    if_neg hcode]

/-- **Only the keys that are read matter.** -/
theorem judgeAll_withoutRubrics {keys : List String} (h : ∀ key ∈ keys, ¬IsRead key)
    (rules : Ruleset) (person : Person) :
    judgeAll (rules.withoutRubrics keys) person = judgeAll rules person := by
  refine List.filterMap_congr fun judged hmem => ?_
  have hcode : judged.1 ∈ judgedCodes := by
    rw [← map_fst_judgedValues person]
    exact List.mem_map_of_mem hmem
  rw [judge, judge, Ruleset.rubric?_withoutRubrics
    (fun hkey => h _ hkey ⟨judged.1, hcode, .inl rfl⟩)
    (fun hkey => h _ hkey ⟨judged.1, hcode, .inr rfl⟩)]
  rfl

theorem Stat.mem_judged_iff {stat : Stat} : stat ∈ Stat.judged ↔ stat ≠ .life := by
  cases stat <;> decide

/-- The keys that are read: those of the score, and those of all stats but life. -/
theorem isRead_iff_exists {key : String} :
    IsRead key ↔ (key = Ruleset.highestKey Ruleset.scoreCode ∨ key = Ruleset.scoreCode) ∨
      ∃ stat : Stat, stat ≠ .life ∧ (key = Ruleset.highestKey stat.code ∨ key = stat.code) := by
  simp only [IsRead, judgedCodes, List.mem_append, List.mem_map, List.mem_singleton, or_and_right,
    exists_or, exists_eq_left, Stat.mem_judged_iff]
  rw [or_comm]
  refine or_congr_right ?_
  constructor
  · rintro ⟨_, ⟨stat, hstat, rfl⟩, hkey⟩
    exact ⟨stat, hstat, hkey⟩
  · rintro ⟨stat, hstat, hkey⟩
    exact ⟨_, ⟨stat, hstat, rfl⟩, hkey⟩

/-- No key of another code is one of life's. -/
theorem ne_life_of_ne {stat : Stat} (hstat : stat ≠ .life) {key : String}
    (hkey : key = Ruleset.highestKey stat.code ∨ key = stat.code) :
    key ≠ Ruleset.highestKey Stat.life.code ∧ key ≠ Stat.life.code := by
  rcases hkey with rfl | rfl
  · cases stat <;> first | exact absurd rfl hstat | decide
  · cases stat <;> first | exact absurd rfl hstat | decide

/-! ## A rubric that everyone meets -/

/-- A draft with one rubric of one level, which every number meets. -/
def lenientDraft (key : String) : Draft where
  rubrics := [(key, [⟨⟨Range.least, by decide⟩, 1, none⟩])]

/-- The level of the draft. -/
def lenientLevel : Level :=
  ⟨⟨Range.least, by decide⟩, 1, ""⟩

/-- The rules of the draft. -/
def lenientRules (key : String) : Ruleset :=
  { Ruleset.standard with rubrics := .ofList [(key, [lenientLevel])] }

theorem build_lenientDraft (key : String) : (lenientDraft key).build = .ok (lenientRules key) :=
  Draft.build_of_level key _

theorem find?_lenientRules (key other : String) :
    (lenientRules key).rubrics.find? other = if other = key then some [lenientLevel] else none := by
  rw [lenientRules, Table.find?_ofList]
  by_cases h : other = key
  · simp [h]
  · simp [h, Ne.symm h]

/-- Any value is graded by its level, for a value is saturated before it is graded. -/
theorem classify_lenientLevel (value : Int) :
    classify [lenientLevel] (Range.saturate value) = some lenientLevel := by
  have hmet : lenientLevel.isMet (Range.saturate value) = true :=
    decide_eq_true (Range.saturate_inRange value).1
  simp [classify, hmet]

/-- Its key is read: everyone is judged by it. -/
theorem judgeAll_lenientRules_ne_nil {key : String} (h : IsRead key) (person : Person) :
    judgeAll (lenientRules key) person ≠ [] := by
  obtain ⟨code, hcode, hkey⟩ := h
  rw [← map_fst_judgedValues person] at hcode
  obtain ⟨judged, hmem, rfl⟩ := List.mem_map.mp hcode
  have hrubric : (lenientRules key).rubric? judged.1 = some [lenientLevel] := by
    rw [Ruleset.rubric?, find?_lenientRules, find?_lenientRules]
    rcases hkey with rfl | rfl
    · rw [if_pos rfl, Option.some_or]
    -- The key with the `H` might be this one as well; then the level is found there.
    · rw [if_pos rfl]
      split <;> rfl
  have hjudge : ∃ judgement, judge (lenientRules key) judged.1 judged.2 = some judgement := by
    rw [judge, hrubric]
    simp only [Option.bind_eq_bind, Option.bind_some, classify_lenientLevel]
    exact ⟨_, rfl⟩
  obtain ⟨judgement, hjudge⟩ := hjudge
  exact List.ne_nil_of_mem (List.mem_filterMap.mpr ⟨judged, hmem, hjudge⟩)

/-- Without it no one is judged. -/
theorem judgeAll_without_lenientRules (key : String) (person : Person) :
    judgeAll ((lenientRules key).withoutRubrics [key]) person = [] := by
  refine List.filterMap_eq_nil_iff.mpr fun judged _ => ?_
  have hnone (other : String) :
      ((lenientRules key).rubrics.without [key]).find? other = none := by
    rw [Table.find?_without, find?_lenientRules]
    by_cases h : other = key
    · rw [if_pos (List.mem_singleton.mpr h)]
    · rw [if_neg h, ite_self]
  rw [judge, Ruleset.rubric?, Ruleset.withoutRubrics, hnone, hnone]
  rfl

/-- A key that is read matters to everyone under some rules. -/
theorem exists_judgeAll_ne {key : String} (h : IsRead key) (person : Person) :
    ∃ rules : Ruleset, rules.Loaded ∧
      judgeAll (rules.withoutRubrics [key]) person ≠ judgeAll rules person := by
  refine ⟨lenientRules key, .build (build_lenientDraft key), ?_⟩
  rw [judgeAll_without_lenientRules]
  exact (judgeAll_lenientRules_ne_nil h person).symm

/-- **The keys that are read are those that are not unread.** -/
theorem unread_iff {key : String} : Unread key ↔ ¬IsRead key := by
  constructor
  · intro hunread hread
    obtain ⟨rules, hloaded, hne⟩ := exists_judgeAll_ne hread (.unborn .standard)
    exact hne (hunread rules hloaded _)
  · intro hread rules _ person
    exact judgeAll_withoutRubrics (List.forall_mem_singleton.mpr hread) rules person

/-! ## What the report takes for a rubric's key -/

theorem Stat.isSome_ofCode?_iff {code : String} :
    (Stat.ofCode? code).isSome = true ↔ ∃ stat : Stat, code = stat.code := by
  simp only [Option.isSome_iff_exists, Stat.ofCode?_eq_some_iff, @eq_comm _ code]

namespace Lint

/-- The keys that the report accepts. -/
theorem isRubricKey_iff {key : String} :
    isRubricKey key = true ↔ key = Ruleset.scoreCode ∨
      ∃ stat : Stat, key = Ruleset.highestKey stat.code ∨ key = stat.code := by
  constructor
  · intro h
    rw [isRubricKey, Bool.or_eq_true, Bool.or_eq_true, beq_iff_eq, Stat.isSome_ofCode?_iff] at h
    obtain (hscore | ⟨stat, hstat⟩) | hmarked := h
    · exact .inl hscore
    · exact .inr ⟨stat, .inr hstat⟩
    · split at hmarked
      · rename_i code hcode
        obtain ⟨stat, hstat⟩ := Stat.isSome_ofCode?_iff.mp hmarked
        refine .inr ⟨stat, .inl (String.toList_inj.mp ?_)⟩
        rw [Ruleset.highestKey, String.toList_append, ← hstat, @String.toList_ofList code, hcode]
        rfl
      · cases hmarked
  · rintro (rfl | ⟨stat, rfl | rfl⟩)
    · rfl
    · cases stat <;> rfl
    · cases stat <;> rfl

/-- **Where the report and the judges differ.** -/
theorem isRead_iff {key : String} :
    IsRead key ↔ key = Ruleset.highestKey Ruleset.scoreCode ∨
      isRubricKey key = true ∧ key ≠ Ruleset.highestKey Stat.life.code ∧ key ≠ Stat.life.code := by
  rw [isRead_iff_exists, isRubricKey_iff, or_assoc]
  refine or_congr_right ?_
  constructor
  · rintro (rfl | ⟨stat, hstat, hkey⟩)
    · exact ⟨.inl rfl, by decide⟩
    · exact ⟨.inr ⟨stat, hkey⟩, ne_life_of_ne hstat hkey⟩
  · rintro ⟨hscore | ⟨stat, hkey⟩, hhighest, hlife⟩
    · exact .inl hscore
    · refine .inr ⟨stat, ?_, hkey⟩
      rintro rfl
      exact hkey.elim hhighest hlife

/-! ## The rubrics of a report -/

section

variable {key : String}

theorem unusedRubric_not_mem_conditionIssues (kind : EntityKind) (id : Int)
    (condition : Condition) : Issue.unusedRubric key ∉ conditionIssues kind id condition := by
  rw [conditionIssues]
  split
  · simp
  · exact List.not_mem_nil

theorem unusedRubric_not_mem_unknownIds {α : Type} (table : Table Int α) (ids : List Int)
    {issue : Int → Issue} (h : ∀ id, issue id ≠ .unusedRubric key) :
    Issue.unusedRubric key ∉ unknownIds table ids issue := by
  intro hmem
  obtain ⟨id, -, hid⟩ := List.mem_map.mp hmem
  exact h id hid

theorem unusedRubric_not_mem_talentIssues (rules : Ruleset) (id : Int) (talent : Talent) :
    Issue.unusedRubric key ∉ talentIssues rules id talent := by
  simp [talentIssues, replacementIssues, unusedRubric_not_mem_conditionIssues,
    unusedRubric_not_mem_unknownIds]

theorem unusedRubric_not_mem_followUpIssues (rules : Ruleset) (id : Int) (followUp : FollowUp) :
    Issue.unusedRubric key ∉ followUpIssues rules id followUp := by
  cases followUp <;> simp [followUpIssues, unusedRubric_not_mem_unknownIds]

theorem unusedRubric_not_mem_eventIssues (rules : Ruleset) (id : Int) (event : Event) :
    Issue.unusedRubric key ∉ eventIssues rules id event := by
  simp [eventIssues, branchIssues, unusedRubric_not_mem_conditionIssues,
    unusedRubric_not_mem_unknownIds, unusedRubric_not_mem_followUpIssues]

theorem unusedRubric_not_mem_ageIssues (rules : Ruleset) (age : Int) (slot : AgeSlot) :
    Issue.unusedRubric key ∉ ageIssues rules age slot := by
  simp [ageIssues, poolIssues, unusedRubric_not_mem_unknownIds]

theorem unusedRubric_not_mem_achievementIssues (id : Int) (achievement : Achievement) :
    Issue.unusedRubric key ∉ achievementIssues id achievement := by
  simp [achievementIssues, unusedRubric_not_mem_conditionIssues]

end

/-- The report calls the rubrics unused whose keys it does not accept. -/
theorem unusedRubric_mem_report_iff {rules : Ruleset} {key : String} :
    Issue.unusedRubric key ∈ report rules ↔ key ∈ rules.rubrics.keys ∧ isRubricKey key = false := by
  simp [report, rubricIssues, unusedRubric_not_mem_talentIssues, unusedRubric_not_mem_eventIssues,
    unusedRubric_not_mem_ageIssues, unusedRubric_not_mem_achievementIssues]

/-- Of all keys but three, those that are read are those that the report accepts. -/
theorem isRead_iff_of_not_mem {key : String}
    (h : key ∉ [Ruleset.highestKey Ruleset.scoreCode, Ruleset.highestKey Stat.life.code,
      Stat.life.code]) : IsRead key ↔ isRubricKey key = true := by
  rw [List.mem_cons, List.mem_cons, List.mem_singleton, not_or, not_or] at h
  obtain ⟨hscore, hhighest, hlife⟩ := h
  rw [isRead_iff, or_iff_right hscore]
  exact and_iff_left ⟨hhighest, hlife⟩

/-- **The verdict on rubrics is exact but for three keys.**  That the report calls a rubric unused
means that it may always be taken away, unless its key is that of the score with an `H` or one of
the two of life, and for these it does not.  Whatever rubrics that it calls unused are taken away,
except for the one of the score, everyone's summary is the same; and a rubric that it does not call
unused, except for those of life, matters to everyone under some rules. -/
theorem unusedRubric_exact {rules : Ruleset} {key : String} (hkey : key ∈ rules.rubrics.keys) :
    ((Issue.unusedRubric key ∈ report rules ↔ Unread key) ↔
      key ∉ [Ruleset.highestKey Ruleset.scoreCode, Ruleset.highestKey Stat.life.code,
        Stat.life.code]) ∧
    (∀ keys, (∀ unused ∈ keys, Issue.unusedRubric unused ∈ report rules ∧
        unused ≠ Ruleset.highestKey Ruleset.scoreCode) → ∀ (person : Person) (talents : List Int),
      summarize (rules.withoutRubrics keys) person talents = summarize rules person talents) ∧
    (Issue.unusedRubric key ∉ report rules → key ≠ Ruleset.highestKey Stat.life.code →
      key ≠ Stat.life.code → ∀ person : Person, ∃ others : Ruleset, others.Loaded ∧
        judgeAll (others.withoutRubrics [key]) person ≠ judgeAll others person) := by
  have hreport : Issue.unusedRubric key ∈ report rules ↔ ¬isRubricKey key = true := by
    rw [unusedRubric_mem_report_iff, and_iff_right hkey, Bool.not_eq_true]
  refine ⟨?_, fun keys hunused person talents => ?_, fun hread hhighest hlife person => ?_⟩
  · rw [hreport, unread_iff, not_iff_not]
    constructor
    · intro hexact hmem
      rw [List.mem_cons, List.mem_cons, List.mem_singleton] at hmem
      rcases hmem with rfl | rfl | rfl
      · exact absurd hexact (by decide)
      · exact absurd hexact (by decide)
      · exact absurd hexact (by decide)
    · exact fun hmem => (isRead_iff_of_not_mem hmem).symm
  · have hnone : ∀ unused ∈ keys, ¬IsRead unused := by
      intro unused hmem hread
      obtain ⟨hissue, hscore⟩ := hunused unused hmem
      obtain ⟨haccepted, -⟩ := (isRead_iff.mp hread).resolve_left hscore
      rw [(unusedRubric_mem_report_iff.mp hissue).2] at haccepted
      cases haccepted
    rw [summarize, summarize, judgeAll_withoutRubrics hnone]
    rfl
  · have haccepted : isRubricKey key = true := not_not.mp (mt hreport.mpr hread)
    exact exists_judgeAll_ne (isRead_iff.mpr (.inr ⟨haccepted, hhighest, hlife⟩)) person

/-! ## A rubric of luck and one of the score -/

/-- A rubric of luck is called unused and may always be taken away. -/
theorem unusedRubric_exact_luck :
    "LCK" ∈ (lenientRules "LCK").rubrics.keys ∧
    (lenientDraft "LCK").build = .ok (lenientRules "LCK") ∧
    Issue.unusedRubric "LCK" ∈ report (lenientRules "LCK") ∧ Unread "LCK" := by
  have hkey : "LCK" ∈ (lenientRules "LCK").rubrics.keys := List.mem_singleton_self _
  have hissue : Issue.unusedRubric "LCK" ∈ report (lenientRules "LCK") :=
    unusedRubric_mem_report_iff.mpr ⟨hkey, by decide⟩
  obtain ⟨hexact, -⟩ := unusedRubric_exact hkey
  exact ⟨hkey, build_lenientDraft _, hissue, (hexact.mpr (by decide)).mp hissue⟩

/-- So it is not true that the report calls exactly those rubrics unused that may always be taken
away: it says so of a rubric of the score under the key at which the score is looked for first. -/
theorem exists_unusedRubric_read :
    ¬∀ (rules : Ruleset) (key : String), rules.Loaded → key ∈ rules.rubrics.keys →
      (Issue.unusedRubric key ∈ report rules ↔ Unread key) := by
  intro hexact
  have hkey : "HSUM" ∈ (lenientRules "HSUM").rubrics.keys := List.mem_singleton_self _
  have hissue : Issue.unusedRubric "HSUM" ∈ report (lenientRules "HSUM") :=
    unusedRubric_mem_report_iff.mpr ⟨hkey, by decide⟩
  have hunread := (hexact _ _ (.build (build_lenientDraft "HSUM")) hkey).mp hissue
  exact unread_iff.mp hunread (by decide)

end Lint
end LifeCourse
