import LifeCourse.Condition.Parser

/-!
# Conditions

A condition keeps the text it was written as, since reports quote it, together with
what that text was read as.  A blank text always holds.  A text that cannot be read
never holds, but it is kept: the checker reports it, and the rest of the rules stays
usable.

The reading is tied to the text by a proof (`Condition.reading_eq`), so two conditions
with the same text are equal however they came about.
-/

namespace LifeCourse

/-- What a condition's text was read as. -/
inductive Reading where
  | always
  | expr (e : Expr)
  | malformed (error : ConditionError)

/-- The reading of a text. -/
def Reading.ofText (source : String) : Reading :=
  if Text.trim source.toList = [] then .always
  else
    match Expr.parse source with
    | .ok e => .expr e
    | .error e => .malformed e

/-- A condition with the text it was written as. -/
structure Condition where
  source : String
  reading : Reading
  reading_eq : reading = Reading.ofText source

namespace Condition

/-- The condition that a text writes. -/
def ofText (source : String) : Condition :=
  ⟨source, Reading.ofText source, rfl⟩

/-- Why the condition can never hold, if its text cannot be read. -/
def error? (condition : Condition) : Option ConditionError :=
  match condition.reading with
  | .malformed e => some e
  | _ => none

/-- Whether the condition's text could be read. -/
def isWellFormed (condition : Condition) : Bool :=
  condition.error?.isNone

/-- Whether the condition holds of the named values. -/
def holds (condition : Condition) (lookup : Lookup) : Bool :=
  match condition.reading with
  | .always => true
  | .expr e => e.holds lookup
  | .malformed _ => false

/-- The names that the condition asks for. -/
def names (condition : Condition) : List String :=
  match condition.reading with
  | .expr e => e.names
  | _ => []

@[ext] theorem ext {c c' : Condition} (h : c.source = c'.source) : c = c' := by
  obtain ⟨source, reading, hreading⟩ := c
  obtain ⟨source', reading', hreading'⟩ := c'
  cases h
  cases hreading
  cases hreading'
  rfl

/-- A condition depends only on the names that it asks for. -/
theorem holds_congr {c : Condition} {lookup lookup' : Lookup}
    (h : ∀ name ∈ c.names, lookup name = lookup' name) : c.holds lookup = c.holds lookup' := by
  unfold holds
  split
  · rfl
  · rename_i e heq
    exact Expr.holds_congr fun name hn => h name (by simpa [names, heq] using hn)
  · rfl

end Condition

/-- A condition that may be missing; a missing one holds. -/
def holdsIfAny (condition : Option Condition) (lookup : Lookup) : Bool :=
  condition.all fun condition => condition.holds lookup

end LifeCourse
