import LifeCourse.Document.Json
import LifeCourse.Document.Decoder

/-!
# Reading JSON

Nothing is `null`, a record is an object or a list of its fields in order, and every
other kind of value has its own form.  Whole numbers may stand for decimals, decimals
never for whole numbers.

## Depth

A text is read only while no more than 127 brackets are open at once.  The count runs
along with the reading (`Opened.room` says how many more may open), because a value
that nobody reads may be as deep as it likes.  Values that did not come from a text of
their own are read at any depth.
-/

namespace LifeCourse
namespace Document
namespace Json

/-- A value with the number of brackets that may still open in it, if that is bounded. -/
structure Opened where
  value : Json
  room : Option Nat

/-- The number of brackets that may be open at once in a text. -/
def depthLimit : Nat := 127

/-- The room inside one more bracket. -/
def inside : Option Nat → Except Defect (Option Nat)
  | none => .ok none
  | some 0 => .error .tooDeep
  | some (room + 1) => .ok (some room)

/-- The key of a field; every key of an object that is read must be sound. -/
def soundKey {α : Type} : Option String × α → Except Defect (String × α)
  | (some key, a) => .ok (key, a)
  | (none, _) => .error .illFormed

mutual

/-- The value for what it is, where `room` more brackets may open. -/
def datum (room : Option Nat) : Json → Except Defect Datum
  | null => .ok .other
  | flag _ => .ok .other
  | whole n => .ok (.whole n (decide (n < 0)))
  | decimal x => .ok (.decimal x)
  | tooLarge => .error .outOfRange
  | text s => .ok (.text s)
  | brokenText => .error .illFormed
  | list items => do
    let room ← inside room
    return .list (← datumItems room items)
  | object fields => do
    let room ← inside room
    return .mapping (← datumFields room fields)

/-- `datum` on the items of a list. -/
def datumItems (room : Option Nat) : List Json → Except Defect (List Datum)
  | [] => .ok []
  | item :: rest => do return (← datum room item) :: (← datumItems room rest)

/-- `datum` on the fields of an object. -/
def datumFields (room : Option Nat) :
    List (Option String × Json) → Except Defect (List (Datum × Datum))
  | [] => .ok []
  | (none, _) :: _ => .error .illFormed
  | (some key, value) :: rest => do
    return (.text key, ← datum room value) :: (← datumFields room rest)

end

namespace Opened

/-- The items of a list. -/
def items (node : Opened) : Except Defect (List Opened) := do
  match node.value with
  | .list items =>
    let room ← inside node.room
    return items.map fun item => ⟨item, room⟩
  | _ => .error (.expected .list)

/-- The fields of an object. -/
def entries (node : Opened) : Except Defect (List (String × Opened)) := do
  match node.value with
  | .object fields =>
    let room ← inside node.room
    (fields.map fun field => (field.1, (⟨field.2, room⟩ : Opened))).mapM soundKey
  | _ => .error (.expected .mapping)

/-- The fields of a record with their spellings: those of an object, or the items of a
list under the names of the shape. -/
def fields (shape : Shape) (node : Opened) : Except Defect (List (String × Opened)) := do
  match node.value with
  | .object _ => node.entries
  | .list _ =>
    let items ← node.items
    if shape.Fits items.length then return shape.names.zip items else .error .wrongLength
  | _ => .error (.expected (.record shape.name))

end Opened

/-- A reader of values. -/
abbrev Decode := ReaderT Opened (Except Defect)

variable {α : Type}

/-- Reads a field of a record into what is known of it. -/
def recordField (shape : Shape) (field : String → α → Decode α) (progress : Progress α)
    (entry : String × Opened) : Except Defect (Progress α) :=
  progress.read shape field (pure ()) entry.1 entry.2

instance : Decoder Decode where
  whole node :=
    match node.value with
    | .whole n => .ok n
    | _ => .error (.expected .whole)
  natural node :=
    match node.value with
    | .whole (.ofNat n) => .ok n
    | _ => .error (.expected .natural)
  decimal node :=
    match node.value with
    | .whole n => .ok (Decimal.ofWhole n)
    | .decimal x => .ok x
    | .tooLarge => .error .outOfRange
    | _ => .error (.expected .decimal)
  text node :=
    match node.value with
    | .text s => .ok s
    | .brokenText => .error .illFormed
    | _ => .error (.expected .text)
  flag node :=
    match node.value with
    | .flag b => .ok b
    | _ => .error (.expected .flag)
  option item node :=
    match node.value with
    | .null => .ok none
    | _ => do return some (← item node)
  list item node := do
    (← node.items).mapM item
  mapping value node := do
    (← node.entries).mapM fun entry => do return (entry.1, ← value entry.2)
  record shape field start node := do
    return (← (← node.fields shape).foldlM (recordField shape field) ⟨[], start⟩).known
  datum node := datum node.room node.value

/-- Reads the value of a text. -/
def readText {α : Type} (decode : Decode α) (s : String) : Except Defect α :=
  match ofText? s with
  | some value => decode ⟨value, some depthLimit⟩
  | none => .error .illFormed

/-- Reads a value that did not come from a text of its own.  In such a value a field was
kept once. -/
def readValue {α : Type} (decode : Decode α) (value : Json) : Except Defect α :=
  decode ⟨value.collapse, none⟩

end Json
end Document
end LifeCourse
