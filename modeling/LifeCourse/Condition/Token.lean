import LifeCourse.Text.Blank
import LifeCourse.Text.Quoted

/-!
# The tokens of a condition

The text of a condition is freed of its blanks and cut at the four characters
`&`, `|`, `(` and `)`; what stands between them is an atom, which holds one
comparison.  The texts of the tokens, one after another, are the text again.
Parentheses are balanced if no prefix closes more than it opens and the whole closes
all it opens.
-/

namespace LifeCourse

/-- A piece of a condition. -/
inductive Token where
  | atom (text : List Char)
  | and
  | or
  | opening
  | closing
  deriving DecidableEq, Repr

namespace Token

/-- The token of a character at which conditions are cut. -/
def separator? : Char → Option Token
  | '&' => some and
  | '|' => some or
  | '(' => some opening
  | ')' => some closing
  | _ => none

/-- The text of a token. -/
def text : Token → List Char
  | atom text => text
  | and => ['&']
  | or => ['|']
  | opening => ['(']
  | closing => [')']

/-- A token as messages show it. -/
def describe : Token → String
  | atom text => "Atom(" ++ Text.quoted (String.ofList text) ++ ")"
  | and => "And"
  | or => "Or"
  | opening => "Open"
  | closing => "Close"

/-- The tokens of a text without blanks. -/
def cut : List Char → List Token
  | [] => []
  | c :: rest =>
    match separator? c with
    | some token => token :: cut rest
    | none =>
      match cut rest with
      | atom text :: more => atom (c :: text) :: more
      | more => atom [c] :: more

/-- Whether the tokens close every parenthesis they open, of which `depth` are open
already, and no other. -/
def balanced : Nat → List Token → Bool
  | depth, [] => depth == 0
  | depth, opening :: rest => balanced (depth + 1) rest
  | 0, closing :: _ => false
  | depth + 1, closing :: rest => balanced depth rest
  | depth, _ :: rest => balanced depth rest

/-- The tokens of a condition's text. -/
def ofText (s : List Char) : List Token :=
  cut (Text.squeeze s)

theorem text_of_separator? {c : Char} {token : Token} (h : separator? c = some token) :
    token.text = [c] := by
  unfold separator? at h
  split at h <;> cases h <;> rfl

end Token
end LifeCourse
