import LifeCourse.Condition.Basic
import LifeCourse.Rules.Entity

/-!
# Achievements

An achievement is unlocked by the first life in which its condition holds at a
checkpoint that it asks for.  There are three kinds of checkpoints; a tag that names
none of them is kept as `none`, and such an achievement is never checked.
-/

namespace LifeCourse

/-- The kinds of checkpoints. -/
inductive Opportunity where
  /-- After the talents are settled, before the first year. -/
  | start
  /-- After each year. -/
  | trajectory
  /-- After the life. -/
  | summary
  deriving DecidableEq, Repr

namespace Opportunity

/-- The tag of a checkpoint. -/
def tag : Opportunity → String
  | start => "START"
  | trajectory => "TRAJECTORY"
  | summary => "SUMMARY"

/-- The checkpoint that a tag names, in whatever case and with blanks around it. -/
def ofTag? (tag : String) : Option Opportunity :=
  match String.ofList ((Text.trim tag.toList).map Char.toUpper) with
  | "START" => some start
  | "TRAJECTORY" => some trajectory
  | "SUMMARY" => some summary
  | "END" => some summary
  | _ => none

end Opportunity

/-- Something that a life may achieve. -/
structure Achievement where
  id : Int
  name : String
  description : String
  grade : Int
  opportunity : Option Opportunity
  condition : Condition

/-- What a life shows of the achievement. -/
def Achievement.info (achievement : Achievement) : Info :=
  ⟨achievement.id, achievement.name, achievement.description, achievement.grade⟩

end LifeCourse
