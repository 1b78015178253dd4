import LifeCourse.Failure
import LifeCourse.Life.Tracker

/-!
# Settling the talents

A life begins with a selection of talents.  Of those that exclude each other, and of
those selected twice, the first one survives.  Then the survivors are settled in order.

A survivor whose condition does not hold yet is kept as it is and waits.  One whose
condition holds may be replaced: a candidate of its replacement rule is drawn, that one
may be replaced in turn, and so on for as many steps as the settings allow.  The talent
at the end of this walk joins the life, and fires at once if its own condition holds.

## Who may be drawn

A candidate is neither exclusive nor the talent itself, and goes with everything that is
taken: the survivors, as far as they have not been replaced, and what replaced them.
A walk gives its present place up with each step, so it may come back to a talent that
it has left.
-/

namespace LifeCourse

/-! ## Survivors -/

/-- The talents that survive beside those kept before them. -/
def survivorsFrom (kept : List Talent) : List Talent → List Talent
  | [] => []
  | talent :: rest =>
    if kept.any fun other => other.id == talent.id || other.conflicts talent then
      survivorsFrom kept rest
    else talent :: survivorsFrom (kept ++ [talent]) rest

/-- The talents of a selection that survive: of equal or conflicting ones the first. -/
def survivors (selection : List Talent) : List Talent :=
  survivorsFrom [] selection

/-- The talents with some ids; the first unknown id is a failure. -/
def Ruleset.select (rules : Ruleset) (ids : List Int) : Except Failure (List Talent) :=
  ids.mapM fun id =>
    match rules.talents.find? id with
    | some talent => .ok talent
    | none => .error (.unknown .talent id)

/-! ## Replacement -/

/-- Whether a talent may replace another one beside those taken. -/
def isCandidate (rules : Ruleset) (talent : Talent) (taken : List Int) (candidate : Talent) :
    Bool :=
  candidate.id != talent.id && !candidate.exclusive && !taken.contains candidate.id &&
    !(rules.known taken).any fun held => held.conflicts candidate

/-- The candidates of a replacement rule with their weights: for each grade its talents
by ascending id, then the talents that are named. -/
def candidates (rules : Ruleset) (rule : Replacement) (eligible : Talent → Bool) :
    List (Talent × Float) :=
  (rule.grades.flatMap fun entry =>
    (rules.talents.values.filter fun talent => talent.grade == entry.1 && eligible talent).map
      fun talent => (talent, entry.2)) ++
  rule.talents.filterMap fun entry =>
    ((rules.talents.find? entry.1).filter eligible).map fun talent => (talent, entry.2)

/-- Draws a talent to replace one, if it has a rule and there is a candidate. -/
def drawReplacement (rules : Ruleset) (talent : Talent) (taken : List Int) (source : Source) :
    Option Talent × Source :=
  match talent.replacement with
  | none => (none, source)
  | some rule => source.pick (candidates rules rule (isCandidate rules talent taken))

/-- The talents that a walk of replacements comes to one after another, with what is
taken after it. -/
def walk (rules : Ruleset) : Nat → Talent → List Int → Source → List Talent × List Int × Source
  | 0, _, taken, source => ([], taken, source)
  | steps + 1, talent, taken, source =>
    match drawReplacement rules talent taken source with
    | (none, source) => ([], taken, source)
    | (some next, source) =>
      let taken := taken.filter (· != talent.id) ++ [next.id]
      let (path, result) := walk rules steps next taken source
      (next :: path, result)

/-! ## Settling -/

/-- How a survivor was settled: the talents that replaced it one after another, whether
it fired, and the person after that. -/
structure Settling where
  survivor : Talent
  path : List Talent
  fired : Bool
  person : Person

/-- The talent that joined the life. -/
def Settling.target (settling : Settling) : Talent :=
  settling.path.getLast?.getD settling.survivor

/-- The replacement of a survivor by another talent, if it was replaced. -/
def Settling.replacement? (settling : Settling) : Option (Info × Info) :=
  if settling.target.id = settling.survivor.id then none
  else some (settling.survivor.info, settling.target.info)

/-- What changes while survivors are settled. -/
structure SettlingState where
  taken : List Int
  tracker : Tracker
  person : Person
  source : Source

/-- The state when a talent has joined the life. -/
def SettlingState.join (state : SettlingState) (talent : Talent) : SettlingState :=
  { state with
    tracker := state.tracker.add talent.id
    person := state.person.addTalent talent.id }

/-- The state when a talent has fired. -/
def SettlingState.fire (state : SettlingState) (talent : Talent) : SettlingState :=
  let (tracker, person, source) := state.tracker.fire talent state.person state.source
  { state with tracker := tracker, person := person, source := source }

/-- Settles one survivor. -/
def settle (rules : Ruleset) (survivor : Talent) (state : SettlingState) :
    Settling × SettlingState :=
  if survivor.holds state.person.lookup then
    let (path, taken, source) :=
      walk rules rules.settings.maxChainDepth survivor state.taken state.source
    let target := path.getLast?.getD survivor
    let state := SettlingState.join { state with taken := taken, source := source } target
    let fires := (target.id == survivor.id || target.holds state.person.lookup) &&
      !state.tracker.isSpent target
    let state := if fires then state.fire target else state
    (⟨survivor, path, fires, state.person⟩, state)
  else
    let state := state.join survivor
    (⟨survivor, [], false, state.person⟩, state)

/-- Settles survivors in order. -/
def settleEach (rules : Ruleset) : List Talent → SettlingState → List Settling × SettlingState
  | [], state => ([], state)
  | survivor :: rest, state =>
    let (settling, state) := settle rules survivor state
    let (settlings, state) := settleEach rules rest state
    (settling :: settlings, state)

/-- The settled talents of a life. -/
structure Resolution where
  settlings : List Settling
  tracker : Tracker
  person : Person

/-- The ids of the settled talents, in the order of the selection. -/
def Resolution.talents (resolution : Resolution) : List Int :=
  resolution.settlings.map fun settling => settling.target.id

/-- The replacements, in the order of the selection. -/
def Resolution.replacements (resolution : Resolution) : List (Info × Info) :=
  resolution.settlings.filterMap Settling.replacement?

/-- Settles a selection of talents. -/
def resolve (rules : Ruleset) (ids : List Int) (person : Person) (source : Source) :
    Except Failure (Resolution × Source) := do
  let kept := survivors (← rules.select ids)
  let (settlings, state) := settleEach rules kept ⟨kept.map Talent.id, .empty, person, source⟩
  return (⟨settlings, state.tracker, state.person⟩, state.source)

end LifeCourse
