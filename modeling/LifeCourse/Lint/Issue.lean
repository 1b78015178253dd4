import LifeCourse.Condition.Parser
import LifeCourse.Number.Decimal
import LifeCourse.Number.Shortest
import LifeCourse.Rules.Entity

/-!
# Issues

What an author of rules should know although it does not keep the rules from being
used.  A condition that cannot be read is an error, since it was surely meant to hold at
times; everything else is a warning.
-/

namespace LifeCourse
namespace Lint

/-- How serious an issue is. -/
inductive Severity where
  | warning
  | error
  deriving DecidableEq, Repr

/-- The severity, as reports name it. -/
def Severity.label : Severity → String
  | warning => "WARNING"
  | error => "ERROR"

/-- The kind of an entity at the beginning of a sentence. -/
def title : EntityKind → String
  | .talent => "Talent"
  | .event => "Event"
  | .age => "Age"
  | .achievement => "Achievement"

/-- What may be wrong with rules that can be used. -/
inductive Issue where
  | malformedCondition (kind : EntityKind) (id : Int) (source : String) (error : ConditionError)
  | unknownExclude (talent other : Int)
  | emptyGrade (talent grade : Int)
  | unknownReplacement (talent target : Int)
  | unknownBranch (event target : Int)
  | unknownFollowUp (event target : Int)
  | unknownPoolEvent (age event : Int)
  | neverDrawn (age event : Int) (weight : Float)
  | unknownUnlock (age talent : Int)
  | neverChecked (achievement : Int)
  | unusedRubric (key : String)

namespace Issue

/-- How serious the issue is. -/
def severity : Issue → Severity
  | malformedCondition .. => .error
  | _ => .warning

/-- The entity that an issue is about. -/
def owner (kind : EntityKind) (id : Int) : String :=
  s!"{title kind} {Decimal.written id}"

/-- The issue in words. -/
def message : Issue → String
  | malformedCondition kind id source error =>
    s!"{owner kind id} has malformed condition '{source}': {error.message}"
  | unknownExclude talent other =>
    s!"{owner .talent talent} excludes unknown talent {Decimal.written other}"
  | emptyGrade talent grade =>
    s!"{owner .talent talent} replacement draws from grade {Decimal.written grade}, " ++
      "which has no candidates"
  | unknownReplacement talent target =>
    s!"{owner .talent talent} replacement names unknown talent {Decimal.written target}"
  | unknownBranch event target =>
    s!"{owner .event event} branches to unknown event {Decimal.written target}"
  | unknownFollowUp event target =>
    s!"{owner .event event} post-event names unknown event {Decimal.written target}"
  | unknownPoolEvent age event =>
    s!"{owner .age age} pool names unknown event {Decimal.written event}"
  | neverDrawn age event weight =>
    s!"{owner .age age} pool entry {Decimal.written event} has weight {Shortest.plain weight} " ++
      "and is never drawn"
  | unknownUnlock age talent =>
    s!"{owner .age age} unlocks unknown talent {Decimal.written talent}"
  | neverChecked achievement =>
    s!"{owner .achievement achievement} has an unknown opportunity and is never checked"
  | unusedRubric key => s!"Judge rubric '{key}' is not a stat code and is never used"

/-- The line of a report. -/
def line (issue : Issue) : String :=
  s!"{issue.severity.label}: {issue.message}"

end Issue
end Lint
end LifeCourse
