import LifeCourse.Document.Defect

/-!
# The signs of a RON text

A RON text is read from its first character to its last, and at every point the reader
says what it wants next.  This module holds what can be wanted below the level of
values: the gaps between signs, single signs, words, commas and names.

## Gaps

Signs may be set apart by blanks, line breaks and comments.  A comment runs to the end
of the line, or from `/*` to the `*/` that belongs to it, since the latter nest.  A gap
is always passed over to its end.

## Names

A name consists of letters, digits and underscores and does not begin with a digit.
After `r#` it may also contain `.`, `+` and `-` and begin as it likes.  Without that
mark, a name that runs into one of these three is no name.
-/

namespace LifeCourse
namespace Document
namespace Ron

/-- A reader of the characters that are left. -/
abbrev Scanner := StateT (List Char) (Except Defect)

/-- Reads what a function finds at the beginning. -/
def Scanner.ofOption {α : Type} (find? : List Char → Option (α × List Char)) (defect : Defect) :
    Scanner α := fun cs =>
  match find? cs with
  | some found => .ok found
  | none => .error defect

/-! ## Characters -/

/-- A letter, a digit or an underscore. -/
def isNameChar (c : Char) : Bool :=
  c.isAlphanum || c == '_'

/-- A character of a name after `r#`. -/
def isMarkedNameChar (c : Char) : Bool :=
  isNameChar c || c == '.' || c == '+' || c == '-'

/-- A blank or a line break. -/
def isSpace (c : Char) : Bool :=
  c == ' ' || c == '\t' || c == '\n' || c == '\r'

/-! ## Gaps -/

/-- Where in a gap the reading stands. -/
inductive Gap where
  /-- Outside of comments. -/
  | blank
  /-- In a comment to the end of the line. -/
  | line
  /-- In a comment between `/*` and `*/` that stands in so many others. -/
  | block (around : Nat)

/-- What follows a gap. -/
def afterGap? : Gap → List Char → Option (List Char)
  | .blank, '/' :: '/' :: rest => afterGap? .line rest
  | .blank, '/' :: '*' :: rest => afterGap? (.block 0) rest
  | .blank, '/' :: _ => none
  | .blank, c :: rest => if isSpace c then afterGap? .blank rest else some (c :: rest)
  | .line, c :: rest => afterGap? (if c = '\n' then .blank else .line) rest
  | .block around, '/' :: '*' :: rest => afterGap? (.block (around + 1)) rest
  | .block 0, '*' :: '/' :: rest => afterGap? .blank rest
  | .block (around + 1), '*' :: '/' :: rest => afterGap? (.block around) rest
  | .block around, _ :: rest => afterGap? (.block around) rest
  | .block _, [] => none
  | _, [] => some []

/-- Passes over a gap. -/
def gap : Scanner Unit :=
  .ofOption (fun cs => (afterGap? .blank cs).map fun rest => ((), rest)) .illFormed

/-! ## Signs and words -/

/-- Passes over a sign if it is next. -/
def consume (sign : String) : Scanner Bool := fun cs =>
  match sign.toList.isPrefixOf? cs with
  | some rest => .ok (true, rest)
  | none => .ok (false, cs)

/-- Passes over a sign, which must be next. -/
def expect (sign : String) : Scanner Unit := do
  if ← consume sign then return () else throw .illFormed

/-- Passes over a comma if it is next, and over the gaps around it. -/
def comma : Scanner Bool := do
  gap
  if ← consume "," then
    gap
    return true
  else return false

/-- What follows a word that is next and does not go on. -/
def afterWord? (word : String) (cs : List Char) : Option (List Char) :=
  (word.toList.isPrefixOf? cs).filter fun rest => !rest.head?.any isNameChar

/-! ## Names -/

/-- The name at the beginning. -/
def name? : List Char → Option (String × List Char)
  | [] => none
  | 'r' :: '"' :: _ => none
  | 'r' :: '#' :: rest =>
    match rest.takeWhile isMarkedNameChar with
    | [] => none
    | name => some (String.ofList name, rest.dropWhile isMarkedNameChar)
  | c :: rest =>
    if isNameChar c && !c.isDigit then
      let name := c :: rest.takeWhile isNameChar
      let rest := rest.dropWhile isNameChar
      if rest.head?.any isMarkedNameChar then none else some (String.ofList name, rest)
    else none

/-- Reads a name. -/
def name : Scanner String :=
  .ofOption name? .illFormed

end Ron
end Document
end LifeCourse
