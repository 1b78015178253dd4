/-!
# Defects of a document

A document may be well formed in its notation and still not be what a reader asks
for.  `Defect` lists what can be wrong with it before its content is looked at.
-/

namespace LifeCourse
namespace Document

/-- What a reader may ask a value to be. -/
inductive Kind where
  | whole
  | natural
  | decimal
  | text
  | flag
  | option
  | list
  | mapping
  | record (name : String)
  | filter
  | branch
  | followUp
  | poolEntry
  deriving DecidableEq, Repr

namespace Kind

/-- The kind, as messages name it. -/
def describe : Kind → String
  | whole => "a whole number"
  | natural => "a natural number"
  | decimal => "a number"
  | text => "a text"
  | flag => "true or false"
  | option => "a value or nothing"
  | list => "a list"
  | mapping => "a mapping"
  | record name => s!"a {name}"
  | filter => "a condition or a list of event ids"
  | branch => "a branch"
  | followUp => "an event id or a text"
  | poolEntry => "a pool entry"

end Kind

/-- Why a document cannot be read. -/
inductive Defect where
  | illFormed
  | tooDeep
  | expected (kind : Kind)
  | outOfRange
  | missingField (name : String)
  | repeatedField (name : String)
  | wrongLength
  deriving DecidableEq, Repr

namespace Defect

/-- The defect, as messages state it. -/
def message : Defect → String
  | illFormed => "the text is not well formed"
  | tooDeep => "too many brackets are open at once"
  | expected kind => s!"expected {kind.describe}"
  | outOfRange => "a number is out of range"
  | missingField name => s!"missing field {name}"
  | repeatedField name => s!"repeated field {name}"
  | wrongLength => "a list has the wrong length"

end Defect
end Document
end LifeCourse
