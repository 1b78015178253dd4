/-!
# Brackets

A JSON text is made of tokens and brackets.  Before it is read, its tokens are nested:
what stands between an opening bracket and the closing one that belongs to it becomes
one group.  Reading a group is then recursion on its contents, and no reader has to look
for the end of what it reads.
-/

namespace LifeCourse
namespace Document

/-- The kinds of brackets. -/
inductive Bracket where
  | square
  | curly
  deriving DecidableEq, Repr

/-- The part a token plays in the nesting. -/
inductive Role where
  | opens (bracket : Bracket)
  | closes (bracket : Bracket)
  | plain

/-- A token, or what stands between two brackets. -/
inductive Tree (τ : Type) where
  | leaf (token : τ)
  | group (bracket : Bracket) (contents : List (Tree τ))

variable {τ : Type}

/-- Nests the tokens that follow.  `done` holds, last first, what precedes them inside
the innermost open bracket, and `outer` the same for every open bracket around it. -/
def nestFrom (role : τ → Role) :
    List τ → List (Tree τ) → List (Bracket × List (Tree τ)) → Option (List (Tree τ))
  | [], done, [] => some done.reverse
  | [], _, _ :: _ => none
  | token :: tokens, done, outer =>
    match role token with
    | .plain => nestFrom role tokens (.leaf token :: done) outer
    | .opens bracket => nestFrom role tokens [] ((bracket, done) :: outer)
    | .closes bracket =>
      match outer with
      | [] => none
      | (bracket', before) :: outer =>
        if bracket = bracket' then
          nestFrom role tokens (.group bracket done.reverse :: before) outer
        else none

/-- The tokens, nested by their brackets, if these match. -/
def nest (role : τ → Role) (tokens : List τ) : Option (List (Tree τ)) :=
  nestFrom role tokens [] []

end Document
end LifeCourse
