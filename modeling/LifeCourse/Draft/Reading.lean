import LifeCourse.Document.Decoder
import LifeCourse.Draft.Basic
import LifeCourse.Number.Decimal

/-!
# Reading drafts

The shapes of the records of a rule document, and the readers of its entities.  They are
built from the readers of `Document.Decoder`, once for both notations.  For each record
there is a function `field` that reads a field of it, by name, into the draft.

Four fields take several forms.  Their forms are tried in a fixed order on the value as
it is: a whole number is never taken for a text, and a decimal never for an id.
-/

namespace LifeCourse

open Document

variable {δ : Type → Type} [Decoder δ]

/-! ## Forms tried in turn -/

/-- A datum that is a whole number of 32 bits. -/
def Document.Datum.int32? : Datum → Option Int
  | .whole n _ => if Range.InRange n then some n else none
  | _ => none

/-- A datum that is a number. -/
def Document.Datum.float? : Datum → Option Float
  | .whole n _ => some (Decimal.ofWhole n)
  | .decimal x => some x
  | _ => none

/-- A filter: ids, else a condition. -/
def FilterDraft.ofDatum? : Datum → Option FilterDraft
  | .list items => (items.mapM Datum.int32?).map .ids
  | .text s => some (.condition s)
  | _ => none

/-- The two fields of a branch. -/
inductive BranchField where
  | condition
  | target
  deriving DecidableEq, Repr

/-- Whether a number may be the place of a field: it takes one byte, or more than four. -/
def isPlace (n : Int) : Bool :=
  (0 ≤ n && n < 256) || 4294967296 ≤ n

/-- The field that a key names: by its name, or by its place among the two, which is
written without a sign.  A key may also name a field that nobody knows, but it must name
one. -/
def BranchField.ofDatum? : Datum → Option (Option BranchField)
  | .text "condition" => some (some condition)
  | .text "event_id" => some (some target)
  | .text "eventId" => some (some target)
  | .text _ => some none
  | .whole 0 false => some (some condition)
  | .whole 1 false => some (some target)
  | .whole n false => if isPlace n then some none else none
  | _ => none

/-- The value of the one entry with a key. -/
def onlyOf {κ α : Type} [DecidableEq κ] (entries : List (Option κ × α)) (key : κ) : Option α :=
  match entries.filter fun entry => entry.1 = some key with
  | [entry] => some entry.2
  | _ => none

/-- A branch: its two fields, else a text. -/
def BranchDraft.ofDatum? : Datum → Option BranchDraft
  | .mapping entries => do
    let entries ← entries.mapM fun entry => do return (← BranchField.ofDatum? entry.1, entry.2)
    match ← onlyOf entries .condition, ← onlyOf entries .target with
    | .text condition, target => (target.int32?).map (.entry condition)
    | _, _ => none
  | .text s => some (.text s)
  | _ => none

/-- What follows an event: an id, else a text. -/
def FollowUpDraft.ofDatum? : Datum → Option FollowUpDraft
  | .text s => some (.text s)
  | datum => (datum.int32?).map .event

/-- An entry of a pool: an id and a weight, else a text, else numbers. -/
def PoolEntryDraft.ofDatum? : Datum → Option PoolEntryDraft
  | .text s => some (.text s)
  | .list items =>
    let pair := match items with
      | [event, weight] => do return PoolEntryDraft.pair (← event.int32?) (← weight.float?)
      | _ => none
    match pair with
    | some pair => some pair
    | none => (items.mapM Datum.float?).map .numbers
  | _ => none

/-! ## Shapes -/

/-- A field with one spelling for each of the names. -/
def plainFields (names : List String) : List (List String) :=
  names.map fun name => [name]

/-- The shape of an effect. -/
def effectShape : Shape :=
  ⟨"Effect", plainFields ["CHR", "INT", "STR", "MNY", "SPR", "LIF", "AGE", "RDM"], true⟩

/-- The shape of a replacement rule. -/
def replacementShape : Shape :=
  ⟨"RawReplacement", plainFields ["grade", "talent"], true⟩

/-- The shape of a talent. -/
def talentShape : Shape where
  name := "RawTalent"
  fields := [["id"], ["name"], ["description"], ["grade"], ["max_triggers", "maxTriggers"],
    ["condition"], ["effect"], ["exclusive"], ["exclude"], ["replacement"], ["status"]]
  mayEndEarly := false

/-- The shape of an event. -/
def eventShape : Shape where
  name := "RawEvent"
  fields := [["id"], ["event", "text"], ["grade"], ["no_random", "NoRandom", "noRandom"],
    ["include"], ["exclude"], ["effect"], ["branch"], ["post_event", "postEvent"],
    ["terminal", "isEnd"]]
  mayEndEarly := false

/-- The shape of an age. -/
def ageShape : Shape :=
  ⟨"RawAge", plainFields ["age", "talents", "events"], false⟩

/-- The shape of an achievement. -/
def achievementShape : Shape where
  name := "RawAchievement"
  fields := plainFields ["id", "name", "description", "grade", "opportunity", "condition"]
  mayEndEarly := false

/-- The shape of a level. -/
def levelShape : Shape :=
  ⟨"RawJudgeLevel", plainFields ["min", "grade", "text"], false⟩

/-- The shape of the settings. -/
def settingsShape : Shape where
  name := "Settings"
  fields := plainFields ["terminal_age", "initial_spirit", "initial_life", "max_chain_depth",
    "progress_scale", "progress_scales", "page_size"]
  mayEndEarly := true

/-- The shape of a ruleset. -/
def rulesetShape : Shape where
  name := "RawConfig"
  fields := plainFields ["talents", "events", "ages", "achievements", "judge", "settings"]
  mayEndEarly := true

/-! ## Readers -/

namespace Effect

/-- Reads the amount of one stat, or that of the random one. -/
def field (code : String) (effect : Effect) : δ Effect := do
  let amount ← Decoder.int32
  match Stat.ofCode? code with
  | .some stat => return { effect with amounts := effect.amounts.set stat amount }
  | .none => return { effect with random := amount }

/-- Reads an effect; what it does not name it leaves alone. -/
def read : δ Effect :=
  Decoder.record effectShape field none

end Effect

namespace ReplacementDraft

/-- Reads one of the two tables of weights. -/
def field (name : String) (draft : ReplacementDraft) : δ ReplacementDraft := do
  match name with
  | "grade" => return { draft with grades := ← Decoder.table Decoder.decimal }
  | "talent" => return { draft with talents := ← Decoder.table Decoder.decimal }
  | _ => return draft

/-- Reads a replacement rule. -/
def read : δ ReplacementDraft :=
  Decoder.record replacementShape field {}

end ReplacementDraft

namespace TalentDraft

/-- Reads a field of a talent. -/
def field (name : String) (draft : TalentDraft) : δ TalentDraft := do
  match name with
  | "id" => return { draft with id := ← Decoder.option Decoder.int32 }
  | "name" => return { draft with name := ← Decoder.option Decoder.text }
  | "description" => return { draft with description := ← Decoder.option Decoder.text }
  | "grade" => return { draft with grade := ← Decoder.option Decoder.int32 }
  | "max_triggers" => return { draft with maxTriggers := ← Decoder.option Decoder.int64 }
  | "condition" => return { draft with condition := ← Decoder.option Decoder.text }
  | "effect" => return { draft with effect := ← Decoder.option Effect.read }
  | "exclusive" => return { draft with exclusive := ← Decoder.option Decoder.flag }
  | "exclude" => return { draft with exclude := ← Decoder.option (Decoder.list Decoder.int32) }
  | "replacement" => return { draft with replacement := ← Decoder.option ReplacementDraft.read }
  | "status" => return { draft with status := ← Decoder.option Decoder.int32 }
  | _ => return draft

/-- Reads a talent. -/
def read : δ TalentDraft :=
  Decoder.record talentShape field {}

end TalentDraft

/-- Reads a filter. -/
def FilterDraft.read : δ FilterDraft :=
  Decoder.form .filter FilterDraft.ofDatum?

/-- Reads a branch. -/
def BranchDraft.read : δ BranchDraft :=
  Decoder.form .branch BranchDraft.ofDatum?

/-- Reads what follows an event. -/
def FollowUpDraft.read : δ FollowUpDraft :=
  Decoder.form .followUp FollowUpDraft.ofDatum?

/-- Reads an entry of a pool. -/
def PoolEntryDraft.read : δ PoolEntryDraft :=
  Decoder.form .poolEntry PoolEntryDraft.ofDatum?

namespace EventDraft

/-- Reads a field of an event. -/
def field (name : String) (draft : EventDraft) : δ EventDraft := do
  match name with
  | "id" => return { draft with id := ← Decoder.option Decoder.int32 }
  | "event" => return { draft with text := ← Decoder.option Decoder.text }
  | "grade" => return { draft with grade := ← Decoder.option Decoder.int32 }
  | "no_random" => return { draft with noRandom := ← Decoder.option Decoder.flag }
  | "include" => return { draft with requires := ← Decoder.option FilterDraft.read }
  | "exclude" => return { draft with forbids := ← Decoder.option FilterDraft.read }
  | "effect" => return { draft with effect := ← Decoder.option Effect.read }
  | "branch" =>
    return { draft with branches := ← Decoder.option (Decoder.list BranchDraft.read) }
  | "post_event" => return { draft with followUp := ← Decoder.option FollowUpDraft.read }
  | "terminal" => return { draft with terminal := ← Decoder.option Decoder.flag }
  | _ => return draft

/-- Reads an event. -/
def read : δ EventDraft :=
  Decoder.record eventShape field {}

end EventDraft

namespace AgeDraft

/-- Reads a field of an age. -/
def field (name : String) (draft : AgeDraft) : δ AgeDraft := do
  match name with
  | "age" => return { draft with age := ← Decoder.option Decoder.int32 }
  | "talents" => return { draft with talents := ← Decoder.option (Decoder.list Decoder.int32) }
  | "events" => return { draft with pool := ← Decoder.option (Decoder.list PoolEntryDraft.read) }
  | _ => return draft

/-- Reads an age. -/
def read : δ AgeDraft :=
  Decoder.record ageShape field {}

end AgeDraft

namespace AchievementDraft

/-- Reads a field of an achievement. -/
def field (name : String) (draft : AchievementDraft) : δ AchievementDraft := do
  match name with
  | "id" => return { draft with id := ← Decoder.option Decoder.int32 }
  | "name" => return { draft with name := ← Decoder.option Decoder.text }
  | "description" => return { draft with description := ← Decoder.option Decoder.text }
  | "grade" => return { draft with grade := ← Decoder.option Decoder.int32 }
  | "opportunity" => return { draft with opportunity := ← Decoder.option Decoder.text }
  | "condition" => return { draft with condition := ← Decoder.option Decoder.text }
  | _ => return draft

/-- Reads an achievement. -/
def read : δ AchievementDraft :=
  Decoder.record achievementShape field {}

end AchievementDraft

namespace LevelDraft

/-- What is known of a level while it is read. -/
structure Parts where
  min : Option { n : Int // Range.InRange n } := none
  grade : Option Int := none
  text : Option String := none

/-- Reads a field of a level. -/
def field (name : String) (parts : Parts) : δ Parts := do
  match name with
  | "min" => return { parts with min := some (← Decoder.whole32) }
  | "grade" => return { parts with grade := some (← Decoder.int32) }
  | "text" => return { parts with text := ← Decoder.option Decoder.text }
  | _ => return parts

/-- Reads a level of a rubric. -/
def read : δ LevelDraft := do
  let parts ← Decoder.record levelShape field {}
  return {
    min := ← Decoder.required "min" parts.min
    grade := ← Decoder.required "grade" parts.grade
    text := parts.text }

end LevelDraft

namespace Settings

/-- Reads one of the settings. -/
def field (name : String) (settings : Settings) : δ Settings := do
  match name with
  | "terminal_age" =>
    let age ← Decoder.whole32
    return { settings with terminalAge := age.val, terminalAge_le := age.property.2 }
  | "initial_spirit" => return { settings with initialSpirit := ← Decoder.int32 }
  | "initial_life" => return { settings with initialLife := ← Decoder.int32 }
  | "max_chain_depth" => return { settings with maxChainDepth := ← Decoder.count }
  | "progress_scale" => return { settings with progressScale := ← Decoder.int32 }
  | "progress_scales" =>
    return { settings with progressScales := .ofList (← Decoder.table Decoder.int32) }
  | "page_size" => return { settings with pageSize := ← Decoder.count }
  | _ => return settings

/-- Reads settings; what is not given is as usual. -/
def read : δ Settings :=
  Decoder.record settingsShape field standard

end Settings

namespace Draft

/-- Reads one of the tables of a ruleset, or its settings. -/
def field (name : String) (draft : Draft) : δ Draft := do
  match name with
  | "talents" => return { draft with talents := ← Decoder.table TalentDraft.read }
  | "events" => return { draft with events := ← Decoder.table EventDraft.read }
  | "ages" => return { draft with ages := ← Decoder.table AgeDraft.read }
  | "achievements" => return { draft with achievements := ← Decoder.table AchievementDraft.read }
  | "judge" => return { draft with rubrics := ← Decoder.table (Decoder.list LevelDraft.read) }
  | "settings" => return { draft with settings := ← Decoder.option Settings.read }
  | _ => return draft

/-- Reads a ruleset. -/
def read : δ Draft :=
  Decoder.record rulesetShape field {}

end Draft
end LifeCourse
