import LifeCourse.Document.Ron.Header
import LifeCourse.Document.Ron.Literal

/-!
# Reading RON

RON writes records as `(name: value, …)`, mappings as `{key: value, …}`, lists as
`[value, …]` and tuples as `(value, …)`.  A name may stand before a record or tuple; a
record that is asked for must have its own name there or none.  Every kind of value has
a form of its own, and a reader takes no other.

## Values that may be nothing

Such a value is `None` or `Some(value)`.  Where the extension `implicit_some` is
switched on, the brackets may be left out, and so may the word itself.  The two words
are recognised wherever a value that may be nothing is wanted, also at the beginning of
a longer word: `Some5` is then the number 5.

## Depth

Values may not stand inside each other without end.  A pair of brackets takes one step
down, each key, value or item in it another, and so does what stands under `Some`,
whether the word is written or not.  There are 128 steps.
-/

namespace LifeCourse
namespace Document
namespace Ron

/-- How a text is to be read at some depth. -/
structure Setting where
  implicitSome : Bool
  /-- No list has more items than this. -/
  size : Nat
  /-- The steps down that are left. -/
  room : Nat

/-- The steps down that a text may take. -/
def depthLimit : Nat := 128

/-- A reader of values. -/
abbrev Decode := ReaderT Setting Scanner

/-- Reads a value one step further down. -/
def inside {α : Type} (value : Decode α) : Decode α := fun setting =>
  match setting.room with
  | 0 => throw .tooDeep
  | room + 1 => value { setting with room := room }

/-! ## Sequences -/

/-- Reads items between commas up to a closing bracket, at most so many.  A comma may
follow the last one; `more` says that another item may follow. -/
def itemsUpTo {α : Type} (close : String) (item : α → Decode α) : Nat → Bool → α → Decode α
  | 0, _, _ => throw .illFormed
  | atMost + 1, more, a => do
    gap
    if ← consume close then return a
    else if more then
      let a ← item a
      itemsUpTo close item atMost (← comma) a
    else throw .illFormed

/-- Reads items up to a closing bracket, each into what the ones before it gave. -/
def foldItems {α : Type} (close : String) (item : α → Decode α) (start : α) : Decode α := do
  itemsUpTo close item ((← read).size + 1) true start

/-- Reads items up to a closing bracket. -/
def items {α : Type} (close : String) (item : Decode α) : Decode (List α) := do
  return (← foldItems close (fun done => do return (← item) :: done) []).reverse

/-- Passes over the colon between a key and its value. -/
def colon : Scanner Unit := do
  gap
  expect ":"
  gap

/-- Reads a key with its value. -/
def entry {κ α : Type} (key : Decode κ) (value : Decode α) : Decode (κ × α) := do
  let key ← key
  colon
  return (key, ← value)

/-! ## Values that may be nothing -/

/-- Passes over `Some` and the bracket after it, and says whether both are there.  The
word alone is passed over too. -/
def someOpens : Scanner Bool := do
  if ← consume "Some" then
    gap
    if ← consume "(" then
      gap
      return true
  return false

/-- Reads a value that is not nothing. -/
def present {α : Type} (item : Decode α) : Decode α := do
  if ← someOpens then
    let a ← item
    let _ ← comma
    expect ")"
    return a
  else if (← read).implicitSome then item
  else throw (.expected .option)

/-- Reads a value that may be nothing. -/
def option {α : Type} (item : Decode α) : Decode (Option α) := do
  if ← consume "None" then return none
  else return some (← present (inside item))

/-! ## Records -/

/-- Passes over the name of a record, if one is there. -/
def recordName (expected : String) : Scanner Unit := do
  if (← get).head?.any isNameChar then
    if (← name) ≠ expected then throw (.expected (.record expected))

/-- Reads a field of a record into what is known of it. -/
def recordField {α : Type} (shape : Shape) (field : String → α → Decode α) (skip : Decode Unit)
    (progress : Progress α) : Decode (Progress α) := do
  let spelling ← inside (monadLift name)
  colon
  inside (progress.read shape field skip spelling)

/-- Reads a record. -/
def record {α : Type} (shape : Shape) (field : String → α → Decode α) (skip : Decode Unit)
    (start : α) : Decode α := do
  recordName shape.name
  gap
  expect "("
  let progress ← inside (foldItems ")" (recordField shape field skip) ⟨[], start⟩)
  return progress.known

/-! ## Values read for what they are -/

/-- How a value begins: what it is, if that is all of it, else the bracket that has been
passed over, or that a value marked by `Some` follows. -/
inductive Opening where
  | complete (datum : Datum)
  | present
  | list
  | mapping
  | tuple
  | record

/-- The words that are values. -/
def valueWords : List (String × Datum) :=
  [("true", .other), ("false", .other), ("None", .other), ("inf", .decimal (1 / 0)),
   ("NaN", .decimal (0 / 0))]

/-- The word at the beginning that is a value. -/
def valueWord? (cs : List Char) : Option (Datum × List Char) :=
  valueWords.findSome? fun (word, datum) => (afterWord? word cs).map fun rest => (datum, rest)

/-- Whether a name and a colon are next, which is how a record begins that is not empty;
no answer if the text ends there. -/
def beginsRecord? (cs : List Char) : Option Bool :=
  match name? cs with
  | none => some false
  | some (_, rest) =>
    match afterGap? .blank rest with
    | some (c :: _) => some (c = ':')
    | _ => none

/-- Passes over the bracket that opens a tuple or record. -/
def bodyOpening : Scanner Opening := do
  expect "("
  gap
  match beginsRecord? (← get) with
  | some true => return .record
  | some false => return .tuple
  | none => throw .illFormed

/-- The beginning of a value by its first character, when it is no word or name. -/
def openingAt : Char → Scanner Opening
  | '(' => bodyOpening
  | '[' => do
    expect "["
    return .list
  | '\x7b' => do
    expect "\x7b"
    return .mapping
  | '\'' => do
    character
    return .complete .other
  | '"' => return .complete (.text (← text))
  | 'r' => return .complete (.text (← text))
  | _ => return .complete (← .ofOption number? .illFormed)

/-- Reads the beginning of a value.  A name in front of a tuple or record says nothing,
and a name alone is nothing that a reader could use; so is `()` without a gap. -/
def opening : Scanner Opening := do
  let cs ← get
  if (afterWord? "Some" cs).isSome then return .present
  else if ← consume "()" then return .complete .other
  else
    match valueWord? cs, name? cs with
    | some (datum, rest), _ =>
      set rest
      return .complete datum
    | none, some (_, rest) =>
      set rest
      gap
      if (← get).head? = some '(' then bodyOpening else return .complete .other
    | none, none =>
      match cs with
      | c :: _ => openingAt c
      | [] => throw .illFormed

/-- Reads a value for what it is, with so many steps down left. -/
def datumWithin : Nat → Decode Datum
  | 0 => do
    match ← opening with
    | .complete datum => return datum
    | _ => throw .tooDeep
  | room + 1 => do
    let inner : Decode Datum := match room with
      | 0 => throw .tooDeep
      | room + 1 => datumWithin room
    match ← opening with
    | .complete datum => return datum
    | .present =>
      let _ ← present (datumWithin room)
      return .other
    | .list => return .list (← items "]" inner)
    | .tuple => return .list (← items ")" inner)
    | .mapping => return .mapping (← items "\x7d" (entry inner inner))
    | .record => return .mapping (← items ")" (entry (do return .text (← name)) inner))

/-- Reads a value for what it is. -/
def datum : Decode Datum := do
  datumWithin (← read).room

/-! ## The notation -/

instance : Decoder Decode where
  whole := monadLift (Scanner.ofOption integer? (.expected .whole))
  natural := monadLift (Scanner.ofOption magnitude? (.expected .natural))
  decimal := monadLift (Scanner.ofOption decimal? (.expected .decimal))
  text := monadLift text
  flag := do
    if ← consume "true" then return true
    else if ← consume "false" then return false
    else throw (.expected .flag)
  option := option
  list item := do
    expect "["
    inside (items "]" (inside item))
  mapping value := do
    expect "\x7b"
    inside (items "\x7d" (entry (inside (monadLift text)) (inside value)))
  record shape field start := record shape field (discard datum) start
  datum := datum

/-- Reads a text that is one value, perhaps after attributes. -/
def scanText {α : Type} (decode : Decode α) (size : Nat) : Scanner α := do
  gap
  let extensions ← header size
  let a ← decode ⟨decide (.implicitSome ∈ extensions), size, depthLimit⟩
  gap
  return a

/-- Reads the value of a text. -/
def readText {α : Type} (decode : Decode α) (s : String) : Except Defect α :=
  match scanText decode s.length s.toList with
  | .ok (a, []) => .ok a
  | .ok (_, _ :: _) => .error .illFormed
  | .error defect => .error defect

end Ron
end Document
end LifeCourse
