import LifeCourse.Text.Printable

/-!
# Quoted texts

Messages show a text of a document between double quotes, so that blanks and line
breaks in it can be seen.  The quote and the backslash are escaped by a backslash,
four control characters have short names, and every other character that is not
shown as it is becomes its code point in braces.  An apostrophe stays bare.
-/

namespace LifeCourse
namespace Text

/-- A number in lower-case hexadecimal digits. -/
def hexDigits (n : Nat) : List Char :=
  Nat.toDigits 16 n

/-- One character of a quoted text. -/
def quoteChar (c : Char) : List Char :=
  match c with
  | '"' => ['\\', '"']
  | '\\' => ['\\', '\\']
  | '\n' => ['\\', 'n']
  | '\t' => ['\\', 't']
  | '\r' => ['\\', 'r']
  | c =>
    if c.toNat = 0 then ['\\', '0']
    else if isShown c then [c]
    else ['\\', 'u', '\x7b'] ++ hexDigits c.toNat ++ ['\x7d']

/-- The text between double quotes. -/
def quote (s : List Char) : List Char :=
  '"' :: s.flatMap quoteChar ++ ['"']

/-- The text between double quotes. -/
def quoted (s : String) : String :=
  String.ofList (quote s.toList)

end Text
end LifeCourse
