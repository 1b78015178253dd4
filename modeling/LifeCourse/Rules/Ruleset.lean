import LifeCourse.Rules.Achievement
import LifeCourse.Rules.Age
import LifeCourse.Rules.Event
import LifeCourse.Rules.Rubric
import LifeCourse.Rules.Settings
import LifeCourse.Rules.Talent

/-!
# Rulesets

A ruleset is everything a life is lived by.  One ruleset may be laid over another: of
each table the overlay's entries count, the settings stay those of the base.  Tables
are determined by their answers, so the law of `merge` is that of `Table.merge`, one
table at a time.
-/

namespace LifeCourse

/-- Everything a life is lived by. -/
structure Ruleset where
  talents : Table Int Talent
  events : Table Int Event
  ages : Table Int AgeSlot
  achievements : Table Int Achievement
  /-- Rubrics by stat code, by `H` and stat code, or by the code of the score. -/
  rubrics : Table String (List Level)
  settings : Settings

namespace Ruleset

/-- The ruleset without entities. -/
def standard : Ruleset where
  talents := .empty
  events := .empty
  ages := .empty
  achievements := .empty
  rubrics := .empty
  settings := .standard

/-- The rules of `base`, with those of `overlay` in place of them where it has any. -/
def merge (base overlay : Ruleset) : Ruleset where
  talents := base.talents.merge overlay.talents
  events := base.events.merge overlay.events
  ages := base.ages.merge overlay.ages
  achievements := base.achievements.merge overlay.achievements
  rubrics := base.rubrics.merge overlay.rubrics
  settings := base.settings

/-- The code under which the score is judged. -/
def scoreCode : String := "SUM"

/-- The key of the rubric for the highest value of a stat. -/
def highestKey (code : String) : String := "H" ++ code

/-- The rubric of a stat: the one for its highest value, else the one for its code. -/
def rubric? (rules : Ruleset) (code : String) : Option (List Level) :=
  (rules.rubrics.find? (highestKey code)).or (rules.rubrics.find? code)

/-- The talents with the ids of a list, where the ruleset has them. -/
def known (rules : Ruleset) (ids : List Int) : List Talent :=
  ids.filterMap rules.talents.find?

end Ruleset
end LifeCourse
