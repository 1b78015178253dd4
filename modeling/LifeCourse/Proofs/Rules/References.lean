import LifeCourse.Lint.Report
import LifeCourse.Proofs.Rules.Coherence

/-!
# References

Entities refer to each other by id: a talent to those that it excludes and to those that may replace
it, an event to where it leads, an age to the talents that it unlocks and to the events of its pool.
Nothing keeps an id from naming an entity that is not there.  A ruleset is closed if every reference
has its entity (`Ruleset.Closed`).

## The report

Six issues of a report say that an id is unknown, and `Lint.Issue.missing?` is the reference that such
an issue is about.  The report goes through the tables in its own order and through the fields in
another, and what it finds missing is exactly what is referred to and not there
(`Lint.names_report_iff`).  So the report names nothing unknown exactly if the rules are closed.
-/

namespace LifeCourse

/-- An entity as others refer to it. -/
structure Reference where
  kind : EntityKind
  id : Int
  deriving DecidableEq

/-! ## What refers to what -/

/-- What a talent refers to. -/
inductive Talent.Refers (talent : Talent) : Reference → Prop where
  | exclude {id : Int} (h : id ∈ talent.exclude) : Refers talent ⟨.talent, id⟩
  | replacement {rule : Replacement} {id : Int} (hrule : talent.replacement = some rule)
      (h : id ∈ rule.talents.map Prod.fst) : Refers talent ⟨.talent, id⟩

/-- What an event refers to. -/
inductive Event.Refers (event : Event) : Reference → Prop where
  | branch {branch : Branch} (h : branch ∈ event.branches) : Refers event ⟨.event, branch.target⟩
  | followUp {id : Int} (h : event.followUp = some (.event id)) : Refers event ⟨.event, id⟩

/-- What an age refers to. -/
inductive AgeSlot.Refers (slot : AgeSlot) : Reference → Prop where
  | unlock {id : Int} (h : id ∈ slot.talents) : Refers slot ⟨.talent, id⟩
  | pool {entry : PoolEntry} (h : entry ∈ slot.pool) : Refers slot ⟨.event, entry.event⟩

namespace Ruleset

/-- What some entity of the rules refers to. -/
inductive Refers (rules : Ruleset) (reference : Reference) : Prop where
  | talent {id : Int} {talent : Talent} (hfind : rules.talents.find? id = some talent)
      (h : talent.Refers reference)
  | event {id : Int} {event : Event} (hfind : rules.events.find? id = some event)
      (h : event.Refers reference)
  | age {age : Int} {slot : AgeSlot} (hfind : rules.ages.find? age = some slot)
      (h : slot.Refers reference)

/-- The rules have what is referred to. -/
def Has (rules : Ruleset) : Reference → Prop
  | ⟨.talent, id⟩ => ∃ talent, rules.talents.find? id = some talent
  | ⟨.event, id⟩ => ∃ event, rules.events.find? id = some event
  | ⟨.age, age⟩ => ∃ slot, rules.ages.find? age = some slot
  | ⟨.achievement, id⟩ => ∃ achievement, rules.achievements.find? id = some achievement

/-- Every reference has its entity. -/
def Closed (rules : Ruleset) : Prop :=
  ∀ reference, rules.Refers reference → rules.Has reference

variable {rules : Ruleset}

theorem not_has_talent_iff {id : Int} :
    ¬rules.Has ⟨.talent, id⟩ ↔ rules.talents.find? id = none := by
  rw [Has, ← Option.isSome_iff_exists, Option.not_isSome_iff_eq_none]

theorem not_has_event_iff {id : Int} :
    ¬rules.Has ⟨.event, id⟩ ↔ rules.events.find? id = none := by
  rw [Has, ← Option.isSome_iff_exists, Option.not_isSome_iff_eq_none]

/-! ## What is closed -/

namespace Closed

variable (h : rules.Closed)
include h

theorem named {id : Int} {talent : Talent} (hfind : rules.talents.find? id = some talent)
    {rule : Replacement} (hrule : talent.replacement = some rule) :
    ∀ other ∈ rule.talents.map Prod.fst, ∃ named, rules.talents.find? other = some named :=
  fun _ hmem => h _ (.talent hfind (.replacement hrule hmem))

theorem pooled {age : Int} {slot : AgeSlot} (hfind : rules.ages.find? age = some slot) :
    ∀ entry ∈ slot.pool, ∃ event, rules.events.find? entry.event = some event :=
  fun _ hmem => h _ (.age hfind (.pool hmem))

theorem unlocked {age : Int} {slot : AgeSlot} (hfind : rules.ages.find? age = some slot) :
    ∀ id ∈ slot.talents, ∃ talent, rules.talents.find? id = some talent :=
  fun _ hmem => h _ (.age hfind (.unlock hmem))

end Closed
end Ruleset

/-! ## What a report names -/

namespace Lint

/-- The reference that an issue finds missing. -/
def Issue.missing? : Issue → Option Reference
  | unknownExclude _ other => some ⟨.talent, other⟩
  | unknownReplacement _ target => some ⟨.talent, target⟩
  | unknownBranch _ target => some ⟨.event, target⟩
  | unknownFollowUp _ target => some ⟨.event, target⟩
  | unknownPoolEvent _ event => some ⟨.event, event⟩
  | unknownUnlock _ talent => some ⟨.talent, talent⟩
  | _ => none

/-- Some issue finds a reference missing. -/
def Names (issues : List Issue) (reference : Reference) : Prop :=
  ∃ issue ∈ issues, issue.missing? = some reference

variable {rules : Ruleset} {reference : Reference}

@[simp] theorem names_nil : ¬Names [] reference := by
  rintro ⟨issue, hmem, -⟩
  cases hmem

@[simp] theorem names_append {issues issues' : List Issue} :
    Names (issues ++ issues') reference ↔ Names issues reference ∨ Names issues' reference := by
  simp only [Names, List.mem_append, or_and_right, exists_or]

@[simp] theorem names_flatMap {α : Type} {items : List α} {f : α → List Issue} :
    Names (items.flatMap f) reference ↔ ∃ item ∈ items, Names (f item) reference := by
  simp only [Names, List.mem_flatMap]
  constructor
  · rintro ⟨issue, ⟨item, hitem, hissue⟩, hmissing⟩
    exact ⟨item, hitem, issue, hissue, hmissing⟩
  · rintro ⟨item, hitem, issue, hissue, hmissing⟩
    exact ⟨issue, ⟨item, hitem, hissue⟩, hmissing⟩

/-- The issues of some ids name those that the table does not have. -/
theorem names_unknownIds {α : Type} {table : Table Int α} {ids : List Int} (kind : EntityKind)
    (issue : Int → Issue) (hissue : ∀ id, (issue id).missing? = some ⟨kind, id⟩) :
    Names (unknownIds table ids issue) reference ↔
      ∃ id ∈ ids, table.find? id = none ∧ reference = ⟨kind, id⟩ := by
  simp only [Names, unknownIds, List.mem_map, List.mem_filter, Option.isNone_iff_eq_none]
  constructor
  · rintro ⟨_, ⟨id, ⟨hmem, hnone⟩, rfl⟩, hmissing⟩
    rw [hissue] at hmissing
    exact ⟨id, hmem, hnone, (Option.some.inj hmissing).symm⟩
  · rintro ⟨id, hmem, hnone, rfl⟩
    exact ⟨issue id, ⟨id, ⟨hmem, hnone⟩, rfl⟩, hissue id⟩

/-- An issue of another kind names nothing. -/
theorem not_names_of_forall {issues : List Issue} (h : ∀ issue ∈ issues, issue.missing? = none) :
    ¬Names issues reference := by
  rintro ⟨issue, hmem, hmissing⟩
  rw [h issue hmem] at hmissing
  cases hmissing

@[simp] theorem not_names_conditionIssues (kind : EntityKind) (id : Int) (condition : Condition) :
    ¬Names (conditionIssues kind id condition) reference := by
  refine not_names_of_forall fun issue hmem => ?_
  unfold conditionIssues at hmem
  split at hmem
  · rw [List.mem_singleton.mp hmem]
    rfl
  · cases hmem

/-! ## Entity by entity -/

theorem names_replacementIssues {id : Int} {rule : Replacement} :
    Names (replacementIssues rules id rule) reference ↔
      ∃ other ∈ rule.talents.map Prod.fst, rules.talents.find? other = none ∧
        reference = ⟨.talent, other⟩ := by
  have hgrades : ¬Names (((rule.grades.map Prod.fst).filter fun grade =>
      !hasCandidate rules id grade).map (Issue.emptyGrade id)) reference := by
    refine not_names_of_forall fun issue hmem => ?_
    obtain ⟨grade, -, rfl⟩ := List.mem_map.mp hmem
    rfl
  rw [replacementIssues, names_append, names_unknownIds .talent _ fun _ => rfl]
  exact or_iff_right hgrades

/-- **The issues of a talent name what it refers to and the rules do not have.** -/
theorem names_talentIssues_iff {id : Int} {talent : Talent} :
    Names (talentIssues rules id talent) reference ↔
      talent.Refers reference ∧ ¬rules.Has reference := by
  simp only [talentIssues, names_append, names_flatMap, not_names_conditionIssues, and_false,
    exists_false, false_or, Option.mem_toList, names_replacementIssues,
    names_unknownIds .talent (Issue.unknownExclude id) fun _ => rfl]
  constructor
  · rintro (⟨other, hmem, hnone, rfl⟩ | ⟨rule, hrule, other, hmem, hnone, rfl⟩)
    · exact ⟨.exclude hmem, Ruleset.not_has_talent_iff.mpr hnone⟩
    · exact ⟨.replacement hrule hmem, Ruleset.not_has_talent_iff.mpr hnone⟩
  · rintro ⟨hmem | ⟨hrule, hmem⟩, hnot⟩
    · exact .inl ⟨_, hmem, Ruleset.not_has_talent_iff.mp hnot, rfl⟩
    · exact .inr ⟨_, hrule, _, hmem, Ruleset.not_has_talent_iff.mp hnot, rfl⟩

theorem names_followUpIssues {id : Int} {followUp : FollowUp} :
    Names (followUpIssues rules id followUp) reference ↔
      ∃ other, followUp = .event other ∧ rules.events.find? other = none ∧
        reference = ⟨.event, other⟩ := by
  cases followUp with
  | event target =>
    rw [followUpIssues, names_unknownIds .event _ fun _ => rfl]
    simp only [List.mem_singleton, exists_eq_left, FollowUp.event.injEq, exists_eq_left']
  | text s => simp [followUpIssues]

/-- **The issues of an event name what it refers to and the rules do not have.** -/
theorem names_eventIssues_iff {id : Int} {event : Event} :
    Names (eventIssues rules id event) reference ↔
      event.Refers reference ∧ ¬rules.Has reference := by
  simp only [eventIssues, branchIssues, names_append, names_flatMap, not_names_conditionIssues,
    and_false, exists_false, false_or, Option.mem_toList, names_followUpIssues,
    names_unknownIds .event (Issue.unknownBranch id) fun _ => rfl,
    List.mem_singleton, exists_eq_left]
  constructor
  · rintro (⟨branch, hmem, hnone, rfl⟩ | ⟨followUp, hsome, other, rfl, hnone, rfl⟩)
    · exact ⟨.branch hmem, Ruleset.not_has_event_iff.mpr hnone⟩
    · exact ⟨.followUp hsome, Ruleset.not_has_event_iff.mpr hnone⟩
  · rintro ⟨hmem | hsome, hnot⟩
    · exact .inl ⟨_, hmem, Ruleset.not_has_event_iff.mp hnot, rfl⟩
    · exact .inr ⟨_, hsome, _, rfl, Ruleset.not_has_event_iff.mp hnot, rfl⟩

theorem names_poolIssues {age : Int} {entry : PoolEntry} :
    Names (poolIssues rules age entry) reference ↔
      rules.events.find? entry.event = none ∧ reference = ⟨.event, entry.event⟩ := by
  have hdrawn : ¬Names (if Source.drawable entry.weight then []
      else [.neverDrawn age entry.event entry.weight]) reference := by
    refine not_names_of_forall fun issue hmem => ?_
    split at hmem
    · cases hmem
    · rw [List.mem_singleton.mp hmem]
      rfl
  rw [poolIssues, names_append, or_iff_left hdrawn,
    names_unknownIds .event _ fun _ => rfl]
  simp only [List.mem_singleton, exists_eq_left]

/-- **The issues of an age name what it refers to and the rules do not have.** -/
theorem names_ageIssues_iff {age : Int} {slot : AgeSlot} :
    Names (ageIssues rules age slot) reference ↔ slot.Refers reference ∧ ¬rules.Has reference := by
  simp only [ageIssues, names_append, names_flatMap, names_poolIssues,
    names_unknownIds .talent (Issue.unknownUnlock age) fun _ => rfl]
  constructor
  · rintro (⟨entry, hmem, hnone, rfl⟩ | ⟨id, hmem, hnone, rfl⟩)
    · exact ⟨.pool hmem, Ruleset.not_has_event_iff.mpr hnone⟩
    · exact ⟨.unlock hmem, Ruleset.not_has_talent_iff.mpr hnone⟩
  · rintro ⟨hmem | hmem, hnot⟩
    · exact .inr ⟨_, hmem, Ruleset.not_has_talent_iff.mp hnot, rfl⟩
    · exact .inl ⟨_, hmem, Ruleset.not_has_event_iff.mp hnot, rfl⟩

theorem not_names_achievementIssues (id : Int) (achievement : Achievement) :
    ¬Names (achievementIssues id achievement) reference := by
  rw [achievementIssues, names_append, or_iff_right (not_names_conditionIssues _ _ _)]
  refine not_names_of_forall fun issue hmem => ?_
  split at hmem
  · rw [List.mem_singleton.mp hmem]
    rfl
  · cases hmem

theorem not_names_rubricIssues (key : String) : ¬Names (rubricIssues key) reference := by
  refine not_names_of_forall fun issue hmem => ?_
  unfold rubricIssues at hmem
  split at hmem
  · cases hmem
  · rw [List.mem_singleton.mp hmem]
    rfl

/-! ## The report -/

/-- **A report names what is referred to and is not there.** -/
theorem names_report_iff :
    Names (report rules) reference ↔ rules.Refers reference ∧ ¬rules.Has reference := by
  simp only [report, names_append, names_flatMap, not_names_achievementIssues,
    not_names_rubricIssues, and_false, exists_false, or_false, names_talentIssues_iff,
    names_eventIssues_iff, names_ageIssues_iff, ← Table.find?_eq_some_iff, Prod.exists]
  constructor
  · rintro ((⟨id, talent, hfind, hrefers, hnot⟩ | ⟨id, event, hfind, hrefers, hnot⟩) |
      ⟨age, slot, hfind, hrefers, hnot⟩)
    · exact ⟨.talent hfind hrefers, hnot⟩
    · exact ⟨.event hfind hrefers, hnot⟩
    · exact ⟨.age hfind hrefers, hnot⟩
  · rintro ⟨⟨hfind, hrefers⟩ | ⟨hfind, hrefers⟩ | ⟨hfind, hrefers⟩, hnot⟩
    · exact .inl (.inl ⟨_, _, hfind, hrefers, hnot⟩)
    · exact .inl (.inr ⟨_, _, hfind, hrefers, hnot⟩)
    · exact .inr ⟨_, _, hfind, hrefers, hnot⟩

/-- No issue of the report finds a reference missing. -/
def Clean (rules : Ruleset) : Prop :=
  ∀ issue ∈ report rules, issue.missing? = none

/-- **The report names nothing unknown exactly if the rules are closed.** -/
theorem clean_iff_closed : Clean rules ↔ rules.Closed := by
  constructor
  · intro hclean reference hrefers
    by_contra hnot
    exact not_names_of_forall hclean (names_report_iff.mpr ⟨hrefers, hnot⟩)
  · intro hclosed issue hmem
    cases hmissing : issue.missing? with
    | none => rfl
    | some reference =>
      obtain ⟨hrefers, hnot⟩ := names_report_iff.mp ⟨issue, hmem, hmissing⟩
      exact absurd (hclosed reference hrefers) hnot

end Lint
end LifeCourse
