import LifeCourse.Draft.Basic
import LifeCourse.Draft.Fault
import LifeCourse.Rules.Ruleset
import LifeCourse.Text.Split

/-!
# From a draft to a ruleset

Building fills in what a draft leaves out, brings every form of a field to one, and
refuses what makes no sense.  The settings are checked first, then the tables one after
another; within an entity its id comes first.  The first fault ends the building.

What can be understood but will never do anything (a condition that cannot be read, an
unknown checkpoint, a reference to nothing) is no fault.  The checker reports it.
-/

namespace LifeCourse

/-! ## Numbers in texts -/

/-- A whole number with blanks around it. -/
def spacedWhole? (s : List Char) : Option Int :=
  Decimal.readWhole (Text.trim s)

/-- A decimal with blanks around it. -/
def spacedFloat? (s : List Char) : Option Float :=
  Decimal.readFloat (Text.trim s)

/-- The id that a key gives, with which the id inside the entity must agree. -/
def entityId (kind : EntityKind) (key : String) (inner : Option Int) : Except Fault Int :=
  match spacedWhole? key.toList with
  | none => .error (.keyNoId kind key)
  | some id =>
    match inner with
    | some inner => if inner = id then .ok id else .error (.idMismatch kind id inner)
    | none => .ok id

/-! ## Talents -/

/-- The weights of one part of a replacement rule, ascending by their keys. -/
def buildWeights (talent : Int) (part : ReplacementPart) (weights : List (String × Float)) :
    Except Fault (List (Int × Float)) := do
  let weights ← weights.mapM fun weight =>
    match spacedWhole? weight.1.toList with
    | some key => .ok (key, weight.2)
    | none => .error (.replacementKey talent part weight.1)
  return weights.mergeSort fun a b => a.1 ≤ b.1

/-- The replacement rule of a talent. -/
def ReplacementDraft.build (talent : Int) (draft : ReplacementDraft) :
    Except Fault Replacement := do
  let grades ← buildWeights talent .grade draft.grades
  let talents ← buildWeights talent .talent draft.talents
  return ⟨grades, talents⟩

/-- The greatest limit on how often a talent fires. -/
def greatestLimit : Int := 4294967295

/-- The limit that a number stands for. -/
def triggerLimit (n : Int) : Nat :=
  (min n greatestLimit).toNat

/-- The talent under a key. -/
def TalentDraft.build (key : String) (draft : TalentDraft) : Except Fault Talent := do
  let id ← entityId .talent key draft.id
  let replacement ← draft.replacement.mapM fun rule => rule.build id
  return {
    id := id
    name := draft.name.getD ""
    description := draft.description.getD ""
    grade := draft.grade.getD 0
    maxTriggers := (draft.maxTriggers.map triggerLimit).getD 1
    condition := draft.condition.map Condition.ofText
    effect := draft.effect
    exclusive := draft.exclusive.getD false
    exclude := draft.exclude.getD []
    replacement := replacement
    status := draft.status.getD 0 }

/-! ## Events -/

/-- The text of the condition that one of some events has happened. -/
def happenedSource (ids : List Int) : String :=
  "EVT?[" ++ ",".intercalate (ids.map Decimal.written) ++ "]"

/-- The condition that a filter sets; an empty list of ids sets none. -/
def FilterDraft.build : FilterDraft → Option Condition
  | .condition source => some (.ofText source)
  | .ids [] => none
  | .ids events => some (.ofText (happenedSource events))

/-- A branch of an event; a text is a condition, a colon and the target. -/
def BranchDraft.build (event : Int) : BranchDraft → Except Fault Branch
  | entry condition target => .ok ⟨.ofText condition, target⟩
  | text s =>
    match Text.splitLast ':' s.toList with
    | none => .error (.branchTarget event s)
    | some (condition, target) =>
      match spacedWhole? target with
      | none => .error (.branchTarget event s)
      | some target => .ok ⟨.ofText (String.ofList condition), target⟩

/-- What follows an event; a text may be an event id, and a blank one is nothing. -/
def FollowUpDraft.build : FollowUpDraft → Option FollowUp
  | event id => some (.event id)
  | text s =>
    match spacedWhole? s.toList with
    | some id => some (.event id)
    | none => if Text.trim s.toList = [] then none else some (.text s)

/-- The event under a key. -/
def EventDraft.build (key : String) (draft : EventDraft) : Except Fault Event := do
  let id ← entityId .event key draft.id
  let branches ← (draft.branches.getD []).mapM (BranchDraft.build id)
  return {
    id := id
    text := draft.text.getD ""
    grade := draft.grade.getD 0
    noRandom := draft.noRandom.getD false
    requires := draft.requires.bind FilterDraft.build
    forbids := draft.forbids.bind FilterDraft.build
    effect := draft.effect
    branches := branches
    followUp := draft.followUp.bind FollowUpDraft.build
    terminal := draft.terminal.getD false }

/-! ## Ages -/

/-- An entry of a pool; a text is an event id, an asterisk and the weight. -/
def PoolEntryDraft.build (age : Int) : PoolEntryDraft → Except Fault PoolEntry
  | pair event weight => .ok ⟨event, weight⟩
  | text s =>
    match Text.splitFirst '*' s.toList with
    | none => .error (.noWeight age s)
    | some (event, weight) =>
      match spacedWhole? event with
      | none => .error (.noEvent age s)
      | some event =>
        match spacedFloat? weight with
        | none => .error (.invalidWeight age s)
        | some weight => .ok ⟨event, weight⟩
  | numbers values => .error (.noPair age values)

/-- The age under a key. -/
def AgeDraft.build (key : String) (draft : AgeDraft) : Except Fault AgeSlot := do
  let age ← entityId .age key draft.age
  let pool ← (draft.pool.getD []).mapM (PoolEntryDraft.build age)
  return ⟨age, draft.talents.getD [], pool⟩

/-! ## Achievements and rubrics -/

/-- The achievement under a key.  Without a tag it is checked after the life. -/
def AchievementDraft.build (key : String) (draft : AchievementDraft) :
    Except Fault Achievement := do
  let id ← entityId .achievement key draft.id
  match draft.condition with
  | none => .error (.noCondition id)
  | some condition =>
    return {
      id := id
      name := draft.name.getD ""
      description := draft.description.getD ""
      grade := draft.grade.getD 0
      opportunity := (draft.opportunity.map Opportunity.ofTag?).getD (some .summary)
      condition := .ofText condition }

/-- A level of a rubric. -/
def LevelDraft.build (draft : LevelDraft) : Level :=
  ⟨draft.min, draft.grade, draft.text.getD ""⟩

/-! ## The whole -/

/-- Settings, unless some number makes no sense. -/
def Settings.checked (settings : Settings) : Except Fault Settings :=
  if settings.terminalAge < 0 then .error (.negativeTerminalAge settings.terminalAge)
  else if settings.progressScale ≤ 0 then .error (.nonpositiveScale settings.progressScale)
  else if settings.pageSize = 0 then .error .noPageSize
  else if settings.maxChainDepth = 0 then .error .noChainDepth
  else .ok settings

theorem Settings.checked_eq_ok_iff {settings settings' : Settings} :
    settings.checked = .ok settings' ↔ settings.Valid ∧ settings' = settings := by
  unfold Settings.checked
  constructor
  · intro h
    split at h
    · cases h
    · split at h
      · cases h
      · split at h
        · cases h
        · split at h
          · cases h
          · cases h
            exact ⟨⟨by omega, by omega, by omega, by omega⟩, rfl⟩
  · rintro ⟨⟨hage, hscale, hpage, hdepth⟩, rfl⟩
    have h₁ : ¬settings'.terminalAge < 0 := by omega
    have h₂ : ¬settings'.progressScale ≤ 0 := by omega
    have h₃ : ¬settings'.pageSize = 0 := by omega
    have h₄ : ¬settings'.maxChainDepth = 0 := by omega
    simp [h₁, h₂, h₃, h₄]

/-- The table of the entities under their keys. -/
def buildTable {α β : Type} (build : String → α → Except Fault β) (id : β → Int)
    (drafts : List (String × α)) : Except Fault (Table Int β) := do
  let entities ← drafts.mapM fun draft => build draft.1 draft.2
  return .ofList (entities.map fun entity => (id entity, entity))

/-- The ruleset of a draft. -/
def Draft.build (draft : Draft) : Except Fault Ruleset := do
  let settings ← (draft.settings.getD .standard).checked
  let talents ← buildTable TalentDraft.build Talent.id draft.talents
  let events ← buildTable EventDraft.build Event.id draft.events
  let ages ← buildTable AgeDraft.build AgeSlot.age draft.ages
  let achievements ← buildTable AchievementDraft.build Achievement.id draft.achievements
  let rubrics := Table.ofList <| draft.rubrics.map fun rubric =>
    (rubric.1, sortLevels (rubric.2.map LevelDraft.build))
  return ⟨talents, events, ages, achievements, rubrics, settings⟩

end LifeCourse
