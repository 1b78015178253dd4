import LifeCourse.Person
import LifeCourse.Rules.Ruleset

/-!
# Talents in a life

A tracker holds the talents of a life in the order in which they came, and how often
each has fired.  Each year it may be given the talents of the age (`unlock`), and then
every talent that may fire does so once (`activate`), in order, each seeing what those
before it have done.

A talent fires only below its limit, so the counts never pass the limits.
-/

namespace LifeCourse

/-- The talents of a life and how often each has fired. -/
structure Tracker where
  active : List Int
  counts : Table Int Nat

/-- A talent that has fired, and the person right after it. -/
structure Firing where
  talent : Talent
  person : Person

namespace Tracker

/-- The tracker of a life without talents. -/
def empty : Tracker :=
  ⟨[], .empty⟩

/-- How often a talent has fired. -/
def count (tracker : Tracker) (id : Int) : Nat :=
  (tracker.counts.find? id).getD 0

/-- The tracker with one more talent. -/
def add (tracker : Tracker) (id : Int) : Tracker :=
  { tracker with active := tracker.active ++ [id] }

/-- The tracker after one more firing of a talent. -/
def countFiring (tracker : Tracker) (id : Int) : Tracker :=
  { tracker with counts := tracker.counts.insert id (tracker.count id + 1) }

theorem count_countFiring (tracker : Tracker) (id id' : Int) :
    (tracker.countFiring id).count id' =
      if id' = id then tracker.count id + 1 else tracker.count id' := by
  unfold countFiring
  show ((tracker.counts.insert id (tracker.count id + 1)).find? id').getD 0 = _
  rw [Table.find?_insert]
  split
  · rfl
  · rfl

/-- Whether a talent has fired as often as it may. -/
def isSpent (tracker : Tracker) (talent : Talent) : Bool :=
  talent.maxTriggers ≤ tracker.count talent.id

/-- Fires a talent, unless it is spent. -/
def fire (tracker : Tracker) (talent : Talent) (person : Person) (source : Source) :
    Tracker × Person × Source :=
  if tracker.isSpent talent then (tracker, person, source)
  else (tracker.countFiring talent.id, person.applyIfAny talent.effect source)

theorem active_fire (tracker : Tracker) (talent : Talent) (person : Person) (source : Source) :
    (tracker.fire talent person source).1.active = tracker.active := by
  unfold fire
  split
  · rfl
  · rfl

/-! ## Unlocking -/

/-- Whether a talent may join: it is not active, and conflicts with no active one. -/
def admits (tracker : Tracker) (rules : Ruleset) (talent : Talent) : Bool :=
  !(rules.known tracker.active).any fun active => active.conflicts talent

/-- Adds one talent of an age. -/
def unlockOne (rules : Ruleset) (state : Tracker × Person) (id : Int) : Tracker × Person :=
  let (tracker, person) := state
  if tracker.active.contains id then state
  else match rules.talents.find? id with
    | none => state
    | some talent =>
      if tracker.admits rules talent then (tracker.add id, person.addTalent id) else state

/-- Adds the talents of an age; those that are unknown or do not fit are passed over. -/
def unlock (tracker : Tracker) (rules : Ruleset) (ids : List Int) (person : Person) :
    Tracker × Person :=
  ids.foldl (unlockOne rules) (tracker, person)

/-! ## The yearly pass -/

/-- The pass over a list of talents. -/
def activateEach (rules : Ruleset) :
    List Int → Tracker → Person → Source → List Firing × Tracker × Person × Source
  | [], tracker, person, source => ([], tracker, person, source)
  | id :: rest, tracker, person, source =>
    match rules.talents.find? id with
    | none => activateEach rules rest tracker person source
    | some talent =>
      if tracker.isSpent talent || !talent.holds person.lookup then
        activateEach rules rest tracker person source
      else
        let (tracker, person, source) := tracker.fire talent person source
        let (firings, result) := activateEach rules rest tracker person source
        (⟨talent, person⟩ :: firings, result)

/-- Fires every active talent once that is not spent and whose condition holds. -/
def activate (tracker : Tracker) (rules : Ruleset) (person : Person) (source : Source) :
    List Firing × Tracker × Person × Source :=
  activateEach rules tracker.active tracker person source

end Tracker
end LifeCourse
