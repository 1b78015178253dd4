/-!
# Entities

A ruleset has four tables of entities with whole numbers as ids.  Messages name an
entity by its kind and id.  `Info` is what a life shows of a talent or achievement:
the part of it that does not decide anything.
-/

namespace LifeCourse

/-- The kinds of entities. -/
inductive EntityKind where
  | talent
  | event
  | age
  | achievement
  deriving DecidableEq, Repr

/-- The kind, as messages name it. -/
def EntityKind.describe : EntityKind → String
  | talent => "talent"
  | event => "event"
  | age => "age"
  | achievement => "achievement"

/-- What a life shows of a talent or achievement. -/
structure Info where
  id : Int
  name : String
  description : String
  grade : Int
  deriving DecidableEq, Repr

end LifeCourse
