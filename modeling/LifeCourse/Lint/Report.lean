import LifeCourse.Lint.Issue
import LifeCourse.Random.Source
import LifeCourse.Rules.Ruleset

/-!
# Reports

The report on a ruleset goes through its tables one after another, each by ascending
key, and within an entity through its fields in a fixed order.  It looks at nothing but
the ruleset, so equal rulesets have equal reports.

The issues of an entity are a list made of smaller lists, one for each thing that may be
wrong; whether an issue is reported can be read off its own list.
-/

namespace LifeCourse
namespace Lint

/-- The issue of a condition that cannot be read. -/
def conditionIssues (kind : EntityKind) (id : Int) (condition : Condition) : List Issue :=
  match condition.error? with
  | some error => [.malformedCondition kind id condition.source error]
  | none => []

/-- The issues of the ids in a list that a table does not have. -/
def unknownIds {α : Type} (table : Table Int α) (ids : List Int) (issue : Int → Issue) :
    List Issue :=
  (ids.filter fun id => (table.find? id).isNone).map issue

/-! ## Talents -/

/-- Whether a grade has a candidate to replace a talent. -/
def hasCandidate (rules : Ruleset) (talent grade : Int) : Bool :=
  rules.talents.values.any fun other =>
    other.grade == grade && !other.exclusive && other.id != talent

/-- The issues of a replacement rule. -/
def replacementIssues (rules : Ruleset) (id : Int) (rule : Replacement) : List Issue :=
  ((rule.grades.map Prod.fst).filter fun grade => !hasCandidate rules id grade).map
    (Issue.emptyGrade id) ++
  unknownIds rules.talents (rule.talents.map Prod.fst) (Issue.unknownReplacement id)

/-- The issues of a talent. -/
def talentIssues (rules : Ruleset) (id : Int) (talent : Talent) : List Issue :=
  talent.condition.toList.flatMap (conditionIssues .talent id) ++
    unknownIds rules.talents talent.exclude (Issue.unknownExclude id) ++
    talent.replacement.toList.flatMap (replacementIssues rules id)

/-! ## Events -/

/-- The issues of a branch. -/
def branchIssues (rules : Ruleset) (id : Int) (branch : Branch) : List Issue :=
  conditionIssues .event id branch.condition ++
    unknownIds rules.events [branch.target] (Issue.unknownBranch id)

/-- The issues of what follows an event. -/
def followUpIssues (rules : Ruleset) (id : Int) : FollowUp → List Issue
  | .event target => unknownIds rules.events [target] (Issue.unknownFollowUp id)
  | .text _ => []

/-- The issues of an event. -/
def eventIssues (rules : Ruleset) (id : Int) (event : Event) : List Issue :=
  event.requires.toList.flatMap (conditionIssues .event id) ++
    event.forbids.toList.flatMap (conditionIssues .event id) ++
    event.branches.flatMap (branchIssues rules id) ++
    event.followUp.toList.flatMap (followUpIssues rules id)

/-! ## Ages -/

/-- The issues of an entry of a pool. -/
def poolIssues (rules : Ruleset) (age : Int) (entry : PoolEntry) : List Issue :=
  unknownIds rules.events [entry.event] (Issue.unknownPoolEvent age) ++
    if Source.drawable entry.weight then [] else [.neverDrawn age entry.event entry.weight]

/-- The issues of an age. -/
def ageIssues (rules : Ruleset) (age : Int) (slot : AgeSlot) : List Issue :=
  slot.pool.flatMap (poolIssues rules age) ++
    unknownIds rules.talents slot.talents (Issue.unknownUnlock age)

/-! ## Achievements and rubrics -/

/-- The issues of an achievement. -/
def achievementIssues (id : Int) (achievement : Achievement) : List Issue :=
  conditionIssues .achievement id achievement.condition ++
    if achievement.opportunity.isNone then [.neverChecked id] else []

/-- Whether a key is one under which rubrics are looked for. -/
def isRubricKey (key : String) : Bool :=
  key == Ruleset.scoreCode || (Stat.ofCode? key).isSome ||
    match key.toList with
    | 'H' :: code => (Stat.ofCode? (String.ofList code)).isSome
    | _ => false

/-- The issue of a rubric that no one looks for. -/
def rubricIssues (key : String) : List Issue :=
  if isRubricKey key then [] else [.unusedRubric key]

/-! ## The report -/

/-- The issues of a ruleset. -/
def report (rules : Ruleset) : List Issue :=
  (rules.talents.entries.flatMap fun entry => talentIssues rules entry.1 entry.2) ++
    (rules.events.entries.flatMap fun entry => eventIssues rules entry.1 entry.2) ++
    (rules.ages.entries.flatMap fun entry => ageIssues rules entry.1 entry.2) ++
    (rules.achievements.entries.flatMap fun entry => achievementIssues entry.1 entry.2) ++
    rules.rubrics.keys.flatMap rubricIssues

/-- The number of errors among some issues. -/
def errorCount (issues : List Issue) : Nat :=
  issues.countP fun issue => issue.severity == .error

/-- The number of warnings among some issues. -/
def warningCount (issues : List Issue) : Nat :=
  issues.length - errorCount issues

end Lint
end LifeCourse
