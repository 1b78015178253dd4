import LifeCourse.Person
import LifeCourse.Rules.Ruleset

/-!
# The ledger of achievements

A ledger knows the achievements of earlier lives and gathers the new ones.  At a
checkpoint every achievement that asks for it and is not known yet is considered, by
ascending id; one that is unlocked is seen by the conditions of those after it.
-/

namespace LifeCourse

/-- The ids that are known, and the achievements unlocked in this life in order. -/
structure Ledger where
  known : List Int
  unlocked : List Achievement

namespace Ledger

/-- The ledger at the beginning of a life. -/
def ofHistory (groups : List (List Int)) : Ledger :=
  ⟨groups.flatten, []⟩

/-- Whether an achievement is unlocked at a checkpoint. -/
def unlocks (ledger : Ledger) (opportunity : Opportunity) (achievement : Achievement)
    (person : Person) : Bool :=
  !ledger.known.contains achievement.id && achievement.opportunity == some opportunity &&
    achievement.condition.holds person.lookup

/-- Considers one achievement at a checkpoint. -/
def consider (opportunity : Opportunity) (state : Ledger × Person) (achievement : Achievement) :
    Ledger × Person :=
  let (ledger, person) := state
  if ledger.unlocks opportunity achievement person then
    (⟨ledger.known ++ [achievement.id], ledger.unlocked ++ [achievement]⟩,
      person.addAchievement achievement.id)
  else state

/-- Considers all achievements at a checkpoint. -/
def check (ledger : Ledger) (rules : Ruleset) (opportunity : Opportunity) (person : Person) :
    Ledger × Person :=
  rules.achievements.values.foldl (consider opportunity) (ledger, person)

/-- What a life shows of its new achievements. -/
def infos (ledger : Ledger) : List Info :=
  ledger.unlocked.map Achievement.info

end Ledger
end LifeCourse
