import LifeCourse.Rules.Settings
import LifeCourse.Stat

/-!
# Drafts

A draft is a rule document that has been read and not yet checked.  Its fields are as
the document gives them: possibly missing, in whichever form was chosen.  The entries of
a table stand in the order of the document under the texts that are their keys, and no
key stands twice.
-/

namespace LifeCourse

/-- A filter of an event: a list of event ids of which one must have happened, or a
condition. -/
inductive FilterDraft where
  | ids (ids : List Int)
  | condition (source : String)

/-- A branch: its parts, or one text for both. -/
inductive BranchDraft where
  | entry (condition : String) (target : Int)
  | text (s : String)

/-- What follows an event. -/
inductive FollowUpDraft where
  | event (id : Int)
  | text (s : String)

/-- An entry of a pool: an event with its weight, one text for both, or numbers that are
no such pair. -/
inductive PoolEntryDraft where
  | pair (event : Int) (weight : Float)
  | text (s : String)
  | numbers (values : List Float)

/-- A replacement rule. -/
structure ReplacementDraft where
  grades : List (String × Float) := []
  talents : List (String × Float) := []

/-- A talent. -/
structure TalentDraft where
  id : Option Int := none
  name : Option String := none
  description : Option String := none
  grade : Option Int := none
  maxTriggers : Option Int := none
  condition : Option String := none
  effect : Option Effect := none
  exclusive : Option Bool := none
  exclude : Option (List Int) := none
  replacement : Option ReplacementDraft := none
  status : Option Int := none

/-- An event. -/
structure EventDraft where
  id : Option Int := none
  text : Option String := none
  grade : Option Int := none
  noRandom : Option Bool := none
  requires : Option FilterDraft := none
  forbids : Option FilterDraft := none
  effect : Option Effect := none
  branches : Option (List BranchDraft) := none
  followUp : Option FollowUpDraft := none
  terminal : Option Bool := none

/-- An age. -/
structure AgeDraft where
  age : Option Int := none
  talents : Option (List Int) := none
  pool : Option (List PoolEntryDraft) := none

/-- An achievement. -/
structure AchievementDraft where
  id : Option Int := none
  name : Option String := none
  description : Option String := none
  grade : Option Int := none
  opportunity : Option String := none
  condition : Option String := none

/-- A level of a rubric. -/
structure LevelDraft where
  min : { n : Int // Range.InRange n }
  grade : Int
  text : Option String

/-- A ruleset. -/
structure Draft where
  talents : List (String × TalentDraft) := []
  events : List (String × EventDraft) := []
  ages : List (String × AgeDraft) := []
  achievements : List (String × AchievementDraft) := []
  rubrics : List (String × List LevelDraft) := []
  settings : Option Settings := none

end LifeCourse
