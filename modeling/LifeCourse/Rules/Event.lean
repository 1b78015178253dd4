import LifeCourse.Condition.Basic
import LifeCourse.Stat

/-!
# Events

An event may happen in a year if its filters admit it.  It tells its text, has its
effect, and may lead on: to the target of the first branch whose condition then holds,
else to what follows it, which is another event or a last piece of text.
-/

namespace LifeCourse

/-- Where an event leads if a condition holds after its effect. -/
@[ext]
structure Branch where
  condition : Condition
  target : Int

/-- What comes after an event when no branch is taken. -/
inductive FollowUp where
  | event (id : Int)
  | text (s : String)
  deriving DecidableEq, Repr

/-- Something that may happen in a year. -/
structure Event where
  id : Int
  text : String
  grade : Int
  /-- The event happens whenever it may, without a draw. -/
  noRandom : Bool
  /-- What must hold for the event to be possible. -/
  requires : Option Condition
  /-- What must not hold for the event to be possible. -/
  forbids : Option Condition
  effect : Option Effect
  branches : List Branch
  followUp : Option FollowUp
  /-- The event ends the life. -/
  terminal : Bool

namespace Event

/-- The event with a text and nothing else. -/
def ofText (id : Int) (text : String) : Event where
  id := id
  text := text
  grade := 0
  noRandom := false
  requires := none
  forbids := none
  effect := none
  branches := []
  followUp := none
  terminal := false

/-- Whether the filters admit the event. -/
def isEligible (event : Event) (lookup : Lookup) : Bool :=
  !(event.forbids.any fun condition => condition.holds lookup) && holdsIfAny event.requires lookup

/-- The target of the first branch whose condition holds. -/
def branch? (event : Event) (lookup : Lookup) : Option Int :=
  (event.branches.find? fun branch => branch.condition.holds lookup).map Branch.target

end Event
end LifeCourse
