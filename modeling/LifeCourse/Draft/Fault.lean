import LifeCourse.Number.Decimal
import LifeCourse.Number.Shortest
import LifeCourse.Rules.Entity
import LifeCourse.Text.Quoted

/-!
# Faults of a draft

A document that could be read may still make no ruleset.  `Fault` lists why, and
`Fault.message` is the only place where a fault is put into words.  Texts of the
document are shown between quotes, and its decimals with the fewest digits that tell
them apart.
-/

namespace LifeCourse

/-- The two lists of a replacement rule. -/
inductive ReplacementPart where
  | grade
  | talent
  deriving DecidableEq, Repr

/-- The part, as messages name it. -/
def ReplacementPart.describe : ReplacementPart → String
  | grade => "grade"
  | talent => "talent"

/-- Why a draft makes no ruleset. -/
inductive Fault where
  | negativeTerminalAge (age : Int)
  | nonpositiveScale (scale : Int)
  | noPageSize
  | noChainDepth
  | keyNoId (kind : EntityKind) (key : String)
  | idMismatch (kind : EntityKind) (key id : Int)
  | replacementKey (talent : Int) (part : ReplacementPart) (key : String)
  | branchTarget (event : Int) (text : String)
  | noWeight (age : Int) (text : String)
  | noEvent (age : Int) (text : String)
  | invalidWeight (age : Int) (text : String)
  | noPair (age : Int) (values : List Float)
  | noCondition (achievement : Int)

namespace Fault

/-- Decimals between square brackets. -/
def listed (values : List Float) : String :=
  "[" ++ ", ".intercalate (values.map Shortest.exact) ++ "]"

/-- The fault in words. -/
def message : Fault → String
  | negativeTerminalAge age =>
    s!"terminal_age must be non-negative, got {Decimal.written age}"
  | nonpositiveScale scale =>
    s!"progress_scale must be positive, got {Decimal.written scale}"
  | noPageSize => "page_size must be at least 1"
  | noChainDepth => "max_chain_depth must be at least 1"
  | keyNoId kind key =>
    s!"{kind.describe} key {Text.quoted key} is not an integer id"
  | idMismatch kind key id =>
    s!"{kind.describe} key {Decimal.written key} holds an entity with id {Decimal.written id}"
  | replacementKey talent part key =>
    s!"talent {Decimal.written talent} replacement {part.describe} key {Text.quoted key} " ++
      "is not an integer"
  | branchTarget event text =>
    s!"event {Decimal.written event} branch {Text.quoted text} has no target id"
  | noWeight age text =>
    s!"age {Decimal.written age} pool entry {Text.quoted text} has no weight"
  | noEvent age text =>
    s!"age {Decimal.written age} pool entry {Text.quoted text} has no event id"
  | invalidWeight age text =>
    s!"age {Decimal.written age} pool entry {Text.quoted text} has an invalid weight"
  | noPair age values =>
    s!"age {Decimal.written age} pool entry {listed values} must be [event id, weight]"
  | noCondition achievement =>
    s!"achievement {Decimal.written achievement} has no condition"

end Fault
end LifeCourse
