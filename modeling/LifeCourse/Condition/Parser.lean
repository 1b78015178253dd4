import LifeCourse.Condition.Expr
import LifeCourse.Condition.Token
import LifeCourse.Number.Decimal

/-!
# Reading a condition

A condition is a disjunction of conjunctions of factors; a factor is an atom or a
condition in parentheses.  So `&` binds tighter than `|`, and both group to the left.
An atom is a name, an operator and a constant: a list in brackets, a whole number or
a finite decimal.

## Which error is reported

The parentheses are counted first, so a text whose parentheses do not match is
reported as that and as nothing else.  After that the first atom or token that does
not fit, from the left, is the one reported.

## Why reading ends

Every function returns the tokens that it left over together with the fact that they
are fewer than those it was given (`Parsed.shorter`), which is what its callers
recurse on.
-/

namespace LifeCourse

/-- Why a text is not a condition. -/
inductive ConditionError where
  | empty
  | unbalanced
  | missingOperator (atom : String)
  | missingVariable (atom : String)
  | invalidValue (text : String)
  | unexpectedToken (token : Token)
  deriving DecidableEq, Repr

/-- The wording of an error. -/
def ConditionError.message : ConditionError → String
  | empty => "empty expression"
  | unbalanced => "unbalanced parentheses"
  | missingOperator atom => "no comparison operator in '" ++ atom ++ "'"
  | missingVariable atom => "missing variable name in '" ++ atom ++ "'"
  | invalidValue text => "invalid comparison value '" ++ text ++ "'"
  | unexpectedToken token => "unexpected token " ++ token.describe

/-! ## Atoms -/

namespace Operator

/-- A character with which an operator begins. -/
def isStart (c : Char) : Bool :=
  c == '>' || c == '<' || c == '=' || c == '!' || c == '?'

/-- The operator at the front of a text that begins with one, and what follows it.
Where two operators fit, the longer one is meant. -/
def read : List Char → Operator × List Char
  | '>' :: '=' :: rest => (greaterEqual, rest)
  | '<' :: '=' :: rest => (lessEqual, rest)
  | '!' :: '=' :: rest => (notEqual, rest)
  | '>' :: rest => (greater, rest)
  | '<' :: rest => (less, rest)
  | '=' :: rest => (equal, rest)
  | '?' :: rest => (includesAny, rest)
  | rest => (excludesAll, rest.drop 1)

end Operator

namespace Operand

/-- The parts of a text between its commas. -/
def splitCommas : List Char → List (List Char)
  | [] => [[]]
  | c :: rest =>
    if c = ',' then [] :: splitCommas rest
    else
      match splitCommas rest with
      | [] => [[c]]
      | part :: parts => (c :: part) :: parts

/-- The text between brackets that enclose all of it. -/
def unbracket? : List Char → Option (List Char)
  | '[' :: rest => if rest.getLast? = some ']' then some rest.dropLast else none
  | _ => none

/-- A list of whole numbers without its brackets. -/
def readList (inner : List Char) : Option (List Int) :=
  if inner = [] then some [] else (splitCommas inner).mapM Decimal.readWhole

/-- The constant that a text writes. -/
def read? (raw : List Char) : Option Operand :=
  match unbracket? raw with
  | some inner => (readList inner).map list
  | none =>
    match Decimal.readWhole raw with
    | some n => some (whole n)
    | none => ((Decimal.readFloat raw).filter Float.isFinite).map decimal

end Operand

namespace Expr

/-- A character of a name. -/
def isNameChar (c : Char) : Bool :=
  c.isAlphanum

/-- The comparison that an atom writes. -/
def ofAtom (atom : List Char) : Except ConditionError Expr :=
  let name := atom.takeWhile fun c => !Operator.isStart c
  let rest := atom.dropWhile fun c => !Operator.isStart c
  if rest = [] then .error (.missingOperator (String.ofList atom))
  else if name = [] ∨ ¬name.all isNameChar then .error (.missingVariable (String.ofList atom))
  else
    let (op, raw) := Operator.read rest
    match Operand.read? raw with
    | some operand => .ok (.compare (String.ofList name) op operand)
    | none => .error (.invalidValue (String.ofList raw))

/-! ## Groups -/

/-- An expression and the tokens left over, which are fewer than `bound`. -/
structure Parsed (bound : Nat) where
  expr : Expr
  rest : List Token
  shorter : rest.length < bound

mutual

/-- Conjunctions joined by `|`. -/
def disjunction (tokens : List Token) : Except ConditionError (Parsed tokens.length) :=
  match conjunction tokens with
  | .error e => .error e
  | .ok ⟨left, rest, h⟩ =>
    match disjuncts left rest with
    | .error e => .error e
    | .ok ⟨expr, rest', h'⟩ => .ok ⟨expr, rest', by omega⟩
termination_by (tokens.length, 2)

/-- The disjuncts that follow `left`. -/
def disjuncts (left : Expr) (tokens : List Token) :
    Except ConditionError (Parsed (tokens.length + 1)) :=
  match tokens with
  | .or :: tokens =>
    match conjunction tokens with
    | .error e => .error e
    | .ok ⟨right, rest, h⟩ =>
      match disjuncts (.or left right) rest with
      | .error e => .error e
      | .ok ⟨expr, rest', h'⟩ => .ok ⟨expr, rest', by simp only [List.length_cons]; omega⟩
  | tokens => .ok ⟨left, tokens, by omega⟩
termination_by (tokens.length, 3)

/-- Factors joined by `&`. -/
def conjunction (tokens : List Token) : Except ConditionError (Parsed tokens.length) :=
  match factor tokens with
  | .error e => .error e
  | .ok ⟨left, rest, h⟩ =>
    match conjuncts left rest with
    | .error e => .error e
    | .ok ⟨expr, rest', h'⟩ => .ok ⟨expr, rest', by omega⟩
termination_by (tokens.length, 1)

/-- The conjuncts that follow `left`. -/
def conjuncts (left : Expr) (tokens : List Token) :
    Except ConditionError (Parsed (tokens.length + 1)) :=
  match tokens with
  | .and :: tokens =>
    match factor tokens with
    | .error e => .error e
    | .ok ⟨right, rest, h⟩ =>
      match conjuncts (.and left right) rest with
      | .error e => .error e
      | .ok ⟨expr, rest', h'⟩ => .ok ⟨expr, rest', by simp only [List.length_cons]; omega⟩
  | tokens => .ok ⟨left, tokens, by omega⟩
termination_by (tokens.length, 3)

/-- An atom, or a condition in parentheses. -/
def factor (tokens : List Token) : Except ConditionError (Parsed tokens.length) :=
  match tokens with
  | .atom text :: rest =>
    match ofAtom text with
    | .error e => .error e
    | .ok expr => .ok ⟨expr, rest, by simp⟩
  | .opening :: rest =>
    match disjunction rest with
    | .error e => .error e
    | .ok ⟨expr, .closing :: rest', h⟩ =>
      .ok ⟨expr, rest', by simp only [List.length_cons] at h ⊢; omega⟩
    | .ok _ => .error .unbalanced
  | token :: _ => .error (.unexpectedToken token)
  | [] => .error .empty
termination_by (tokens.length, 0)

end

/-- The expression that tokens write, all of them. -/
def ofTokens (tokens : List Token) : Except ConditionError Expr :=
  match disjunction tokens with
  | .error e => .error e
  | .ok ⟨expr, [], _⟩ => .ok expr
  | .ok ⟨_, token :: _, _⟩ => .error (.unexpectedToken token)

/-- The expression that a text writes. -/
def read (s : List Char) : Except ConditionError Expr :=
  let tokens := Token.ofText s
  if Token.balanced 0 tokens then ofTokens tokens else .error .unbalanced

/-- The expression that a text writes. -/
def parse (s : String) : Except ConditionError Expr :=
  read s.toList

end Expr
end LifeCourse
