import LifeCourse.Condition.Basic
import LifeCourse.Rules.Entity
import LifeCourse.Stat

/-!
# Talents

A talent is a trait that a life starts with or is given at some age.  It fires, and so
has its effect, when its condition holds, but no more often than its limit.

Two talents may exclude each other.  One of them saying so is enough: `conflicts` is
symmetric (`conflicts_comm`) although a talent lists what it excludes on its own side
only.

A talent may have itself replaced by another one before the life begins.  A replacement
names its candidates by grade or by id, each with a weight; a talent that is exclusive
is nobody's candidate.
-/

namespace LifeCourse

/-- The candidates a talent may be replaced by: by grade and by id, with weights. -/
structure Replacement where
  grades : List (Int × Float)
  talents : List (Int × Float)

/-- A trait of a life. -/
structure Talent where
  id : Int
  name : String
  description : String
  grade : Int
  maxTriggers : Nat
  condition : Option Condition
  effect : Option Effect
  exclusive : Bool
  exclude : List Int
  replacement : Option Replacement
  status : Int

namespace Talent

/-- The talent with a name and nothing else. -/
def ofName (id : Int) (name : String) : Talent where
  id := id
  name := name
  description := ""
  grade := 0
  maxTriggers := 1
  condition := none
  effect := none
  exclusive := false
  exclude := []
  replacement := none
  status := 0

/-- Whether the talent declares that it does not go with another one. -/
def excludes (talent : Talent) (id : Int) : Bool :=
  talent.exclude.contains id

/-- Whether one of two talents excludes the other. -/
def conflicts (a b : Talent) : Bool :=
  a.excludes b.id || b.excludes a.id

theorem conflicts_comm (a b : Talent) : a.conflicts b = b.conflicts a := by
  simp [conflicts, Bool.or_comm]

/-- What a life shows of the talent. -/
def info (talent : Talent) : Info :=
  ⟨talent.id, talent.name, talent.description, talent.grade⟩

/-- Whether the talent's condition, if it has one, holds. -/
def holds (talent : Talent) (lookup : Lookup) : Bool :=
  holdsIfAny talent.condition lookup

end Talent
end LifeCourse
