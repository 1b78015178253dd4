import LifeCourse.Document.Defect
import LifeCourse.Number.Range
import LifeCourse.Table

/-!
# Reading a document

The entities of a rule document are read in the same way from either notation.  What
differs is how a value of each kind is written, and that is the content of the class
`Decoder`: one reader for each kind of value.  The readers of the entities are built
from these, once for every notation.

A reader asks for what it wants, and the notation answers; it is never asked first what
there is.  This order matters where the same characters mean different things to
different readers: a notation may take `Some5` for a number when a number that may be
missing is wanted, and for a name otherwise.

## Two ways to look at a value

Most fields say what they want: a whole number, a text, a record of a certain shape.
Some fields take one of several forms (a pool entry is a pair, a text or a list of
numbers), and there a value is first read for what it is, as a `Datum`, and the forms
are tried on that.  A datum keeps whole numbers and decimals apart, so that a form
which wants a whole number can refuse `5.0`.

## Records

A record has named fields; some have a second spelling.  `Decoder.record` starts from a
record without fields and hands it to the reader of each field that it finds, in the
order of the document.  A field that is given twice, under whichever spellings, is a
defect; a field that nobody knows is not.
-/

namespace LifeCourse
namespace Document

/-- A value read for what it is.  A whole number is `signed` if it is written with a
sign. -/
inductive Datum where
  | whole (n : Int) (signed : Bool)
  | decimal (x : Float)
  | text (s : String)
  | list (items : List Datum)
  | mapping (entries : List (Datum × Datum))
  | other

/-- The fields of a kind of record, in order, each with its spellings; the first one
names the field.  Where a notation gives the fields by position alone, the last ones
may be left out if `mayEndEarly`. -/
structure Shape where
  name : String
  fields : List (List String)
  mayEndEarly : Bool

namespace Shape

/-- The name of the field with a spelling. -/
def fieldOf? (shape : Shape) (spelling : String) : Option String :=
  (shape.fields.find? fun spellings => spelling ∈ spellings).bind List.head?

/-- The names of the fields, in order. -/
def names (shape : Shape) : List String :=
  shape.fields.filterMap List.head?

/-- The number of fields that a list of fields by position may have. -/
def Fits (shape : Shape) (length : Nat) : Prop :=
  length = shape.names.length ∨ (shape.mayEndEarly ∧ length < shape.names.length)

instance (shape : Shape) (length : Nat) : Decidable (shape.Fits length) :=
  inferInstanceAs (Decidable (_ ∨ _))

end Shape

/-! ## Records -/

/-- A record that is being read: the names of the fields it has given so far, and what
is known of it. -/
structure Progress (α : Type) where
  given : List String
  known : α

/-- Reads one more field of a record, under any of its spellings; a field that the shape
does not have is passed over by `skip`. -/
def Progress.read {δ : Type → Type} [Monad δ] [MonadExcept Defect δ] {α : Type} (shape : Shape)
    (field : String → α → δ α) (skip : δ Unit) (spelling : String) (progress : Progress α) :
    δ (Progress α) := do
  match shape.fieldOf? spelling with
  | none =>
    skip
    return progress
  | some name =>
    if name ∈ progress.given then throw (.repeatedField name)
    else return ⟨name :: progress.given, ← field name progress.known⟩

/-! ## Readers -/

/-- Readers of the values of a notation. -/
class Decoder (δ : Type → Type) extends Monad δ, MonadExcept Defect δ where
  /-- A whole number with or without a sign. -/
  whole : δ Int
  /-- A whole number without a sign. -/
  natural : δ Nat
  /-- A number; every whole number is one too. -/
  decimal : δ Float
  /-- A text. -/
  text : δ String
  /-- A truth value. -/
  flag : δ Bool
  /-- A value that may be nothing. -/
  option {α : Type} (item : δ α) : δ (Option α)
  /-- A list of values. -/
  list {α : Type} (item : δ α) : δ (List α)
  /-- The entries of a mapping with texts as keys, in order. -/
  mapping {α : Type} (value : δ α) : δ (List (String × α))
  /-- A record; `field` reads the value of a field into what is known of the record. -/
  record {α : Type} (shape : Shape) (field : String → α → δ α) (start : α) : δ α
  /-- The value for what it is. -/
  datum : δ Datum

namespace Decoder

variable {δ : Type → Type} [Decoder δ] {α : Type}

/-- A part of a record that it must have. -/
def required (name : String) : Option α → δ α
  | some a => return a
  | none => throw (.missingField name)

/-- A whole number that fits 32 bits. -/
def whole32 : δ { n : Int // Range.InRange n } := do
  let n ← whole
  if h : Range.InRange n then return ⟨n, h⟩ else throw .outOfRange

/-- A whole number that fits 32 bits. -/
def int32 : δ Int := do
  return (← whole32).val

/-- A whole number that fits 64 bits with a sign. -/
def int64 : δ Int := do
  let n ← whole
  if -(signedLimit : Int) ≤ n ∧ n < (signedLimit : Int) then return n else throw .outOfRange

/-- A count: a whole number that fits 64 bits without a sign. -/
def count : δ Nat := do
  let n ← natural
  if n < wordLimit then return n else throw .outOfRange

/-- A mapping of values; of two entries with one key the later one counts. -/
def table (value : δ α) : δ (List (String × α)) := do
  return lastOfEach (← mapping value)

/-- A value in one of several forms. -/
def form (kind : Kind) (ofDatum? : Datum → Option α) : δ α := do
  match ofDatum? (← datum) with
  | some a => return a
  | none => throw (.expected kind)

end Decoder
end Document
end LifeCourse
