import LifeCourse.Document.Ron.Scanner

/-!
# Headers of RON texts

Attributes in front of the value, `#![enable(name, …)]`, switch on extensions of the
notation.  `implicit_some` lets a value that may be nothing stand without its `Some`.
The two others concern values wrapped in one more pair of brackets, of which a rule
document has none; they may be switched on and change nothing.
-/

namespace LifeCourse
namespace Document
namespace Ron

/-- An extension of the notation. -/
inductive Extension where
  | implicitSome
  | unwrapNewtypes
  | unwrapVariantNewtypes
  deriving DecidableEq, Repr

/-- The extension with a name. -/
def Extension.ofName? (name : String) : Option Extension :=
  match name with
  | "implicit_some" => some implicitSome
  | "unwrap_newtypes" => some unwrapNewtypes
  | "unwrap_variant_newtypes" => some unwrapVariantNewtypes
  | _ => none

/-- Reads the name of an extension. -/
def extension : Scanner Extension := do
  match Extension.ofName? (← name) with
  | some extension => return extension
  | none => throw .illFormed

/-- Reads the names of extensions between commas, at most so many; a comma may follow the
last one. -/
def extensions : Nat → Scanner (List Extension)
  | 0 => throw .illFormed
  | atMost + 1 => do
    let first ← extension
    if (← comma) && (← get).head?.any isNameChar then
      return first :: (← extensions atMost)
    else return [first]

/-- Passes over signs with gaps between them. -/
def expectAll (signs : List String) : Scanner Unit :=
  signs.forM fun sign => do
    expect sign
    gap

/-- Reads the attributes in front of a value, at most so many. -/
def header : Nat → Scanner (List Extension)
  | 0 => return []
  | atMost + 1 => do
    if (← get).head? = some '#' then
      expectAll ["#", "!", "[", "enable", "("]
      let names ← extensions atMost
      gap
      expectAll [")", "]"]
      return names ++ (← header atMost)
    else return []

end Ron
end Document
end LifeCourse
