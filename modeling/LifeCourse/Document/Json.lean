import LifeCourse.Document.Nesting
import LifeCourse.Number.Decimal
import LifeCourse.Table

/-!
# JSON texts

A JSON text is read into a tree that keeps what a later reader may need to know:
whole numbers stay apart from decimals, objects keep their fields in the order of the
text and a field that is given twice is there twice.

## Values that nobody reads

A field that no one asks for has to be well formed, but its value may be a number
beyond every float or a text with half of a surrogate pair.  Such values are part of
the tree, as `tooLarge` and `brokenText`, and it is their reader who refuses them.
For the same reason depth is not limited here.

## Numbers

A number without point and exponent is whole as long as it fits 64 bits, with or
without a sign; a longer one is a decimal.  `-0` is the decimal minus zero, since no
whole number has that sign.

A decimal is computed in floats and need not be the float nearest to what is written.
Its digits are taken as a whole number of at most 64 bits, which becomes a float; the
digits that no longer fit only count for the exponent.  The float is then multiplied
or divided by a power of ten (`shift?`).  Each of these steps rounds.
-/

namespace LifeCourse
namespace Document

/-- A JSON value. -/
inductive Json where
  | null
  | flag (b : Bool)
  | whole (n : Int)
  | decimal (x : Float)
  | tooLarge
  | text (s : String)
  | brokenText
  | list (items : List Json)
  | object (fields : List (Option String × Json))

namespace Json

/-! ## Texts -/

/-- A piece of a text between quotes: a character, or a 16-bit unit that an escape
names. -/
inductive Piece where
  | char (c : Char)
  | unit (n : Nat)

/-- The value of a hexadecimal digit. -/
def hexValue? (c : Char) : Option Nat :=
  if '0' ≤ c ∧ c ≤ '9' then some (c.toNat - 48)
  else if 'a' ≤ c ∧ c ≤ 'f' then some (c.toNat - 87)
  else if 'A' ≤ c ∧ c ≤ 'F' then some (c.toNat - 55)
  else none

/-- The value of hexadecimal digits. -/
def hexNumber? (digits : List Char) : Option Nat :=
  digits.foldlM (fun n c => (hexValue? c).map fun d => 16 * n + d) 0

/-- The character that a backslash and one character stand for. -/
def escape? : Char → Option Char
  | '"' => some '"'
  | '\\' => some '\\'
  | '/' => some '/'
  | 'b' => some '\x08'
  | 'f' => some '\x0c'
  | 'n' => some '\n'
  | 'r' => some '\r'
  | 't' => some '\t'
  | _ => none

/-- The first half of a surrogate pair. -/
def isHigh (n : Nat) : Bool := 0xD800 ≤ n && n < 0xDC00

/-- The second half of a surrogate pair. -/
def isLow (n : Nat) : Bool := 0xDC00 ≤ n && n < 0xE000

/-- The characters that pieces stand for; half of a surrogate pair stands for none. -/
def joinPieces : List Piece → Option (List Char)
  | [] => some []
  | .char c :: rest => (joinPieces rest).map (c :: ·)
  | .unit n :: .unit m :: rest =>
    if isHigh n then
      if isLow m then
        (joinPieces rest).map (Char.ofNat (0x10000 + (n - 0xD800) * 0x400 + (m - 0xDC00)) :: ·)
      else none
    else if isLow n then none
    else (joinPieces (.unit m :: rest)).map (Char.ofNat n :: ·)
  | .unit n :: rest =>
    if isHigh n || isLow n then none else (joinPieces rest).map (Char.ofNat n :: ·)

/-! ## Tokens -/

/-- A token of a JSON text. -/
inductive Token where
  | bracket (role : Role)
  | comma
  | colon
  | text (s : Option String)
  | word (w : List Char)

/-- The part a token plays in the nesting. -/
def Token.role : Token → Role
  | .bracket role => role
  | _ => .plain

/-- Where the scan of a text stands: between tokens, inside a word, or inside a text;
what has been read of the token is kept last piece first. -/
inductive Scan where
  | between
  | word (done : List Char)
  | text (done : List Piece)

/-- What a character means between tokens: the tokens it completes and where the scan
then stands. -/
def start (c : Char) : List Token × Scan :=
  match c with
  | ' ' | '\n' | '\r' | '\t' => ([], .between)
  | '[' => ([.bracket (.opens .square)], .between)
  | ']' => ([.bracket (.closes .square)], .between)
  | '\x7b' => ([.bracket (.opens .curly)], .between)
  | '\x7d' => ([.bracket (.closes .curly)], .between)
  | ',' => ([.comma], .between)
  | ':' => ([.colon], .between)
  | '"' => ([], .text [])
  | c => ([], .word [c])

/-- A character that continues a word. -/
def isWordChar (c : Char) : Bool :=
  c.isAlphanum || c == '.' || c == '+' || c == '-'

/-- The tokens of a text; `done` holds those before it, last first. -/
def scan : Scan → List Char → List Token → Option (List Token)
  | .between, [], done => some done.reverse
  | .between, c :: rest, done =>
    let (tokens, next) := start c
    scan next rest (tokens ++ done)
  | .word w, [], done => some (.word w.reverse :: done).reverse
  | .word w, c :: rest, done =>
    if isWordChar c then scan (.word (c :: w)) rest done
    else
      let (tokens, next) := start c
      scan next rest (tokens ++ .word w.reverse :: done)
  | .text _, [], _ => none
  | .text pieces, '"' :: rest, done =>
    scan .between rest (.text ((joinPieces pieces.reverse).map String.ofList) :: done)
  | .text pieces, '\\' :: 'u' :: a :: b :: c :: d :: rest, done =>
    match hexNumber? [a, b, c, d] with
    | some n => scan (.text (.unit n :: pieces)) rest done
    | none => none
  | .text pieces, '\\' :: e :: rest, done =>
    match escape? e with
    | some c => scan (.text (.char c :: pieces)) rest done
    | none => none
  | .text pieces, c :: rest, done =>
    if c = '\\' ∨ c < ' ' then none else scan (.text (.char c :: pieces)) rest done

/-! ## Numbers -/

/-- Takes digits onto a number as long as it fits 64 bits; those that do not are left. -/
def gather (n : Nat) : List Char → Nat × List Char
  | [] => (n, [])
  | c :: rest =>
    let next := 10 * n + (c.toNat - '0'.toNat)
    if next < wordLimit then gather next rest else (n, c :: rest)

/-- A float divided by `10 ^ power`, by no more than `10 ^ 308` at once. -/
def shrink (x : Float) (power : Nat) : Float :=
  if power ≤ 308 then x / Decimal.scale 1 power
  else if x == 0 then x
  else shrink (x / Decimal.scale 1 308) (power - 308)
termination_by power
decreasing_by omega

/-- A float multiplied by `10 ^ exponent`, unless that is too large. -/
def shift? (x : Float) (exponent : Int) : Option Float :=
  if exponent < 0 then some (shrink x exponent.natAbs)
  else if x == 0 then some x
  else if 308 < exponent then none
  else
    let x := x * Decimal.scale 1 exponent
    if x.isInf then none else some x

/-- The decimal with these digits before and after its point. -/
def ofDecimal (negative : Bool) (digits fraction : List Char) (exponent : Int) : Json :=
  let (n, dropped) := gather 0 digits
  let (n, left) := gather n fraction
  let taken := fraction.length - left.length
  match shift? (Decimal.scale n 0) (exponent + dropped.length - taken) with
  | some x => decimal (if negative then -x else x)
  | none => tooLarge

/-- A number that fits 64 bits, with or without a sign, is whole, and a longer one is a
decimal. -/
def ofInteger (negative : Bool) (digits : List Char) (n : Nat) : Json :=
  if negative then
    if n ≠ 0 ∧ n ≤ signedLimit then whole (-n) else ofDecimal negative digits [] 0
  else if n < wordLimit then whole n
  else ofDecimal negative digits [] 0

/-- The number that a word writes. -/
def number? (w : List Char) : Option Json := do
  let (negative, w) := match w with
    | '-' :: w => (true, w)
    | w => (false, w)
  let digits := w.takeWhile Char.isDigit
  let rest := w.dropWhile Char.isDigit
  if digits = [] ∨ (digits.head? = some '0' ∧ digits.length ≠ 1) then none
  if rest = [] then return ofInteger negative digits (← Decimal.readDigits digits)
  let (fraction, rest) ← match rest with
    | '.' :: rest =>
      if (rest.takeWhile Char.isDigit) = [] then none
      else some (rest.takeWhile Char.isDigit, rest.dropWhile Char.isDigit)
    | rest => some ([], rest)
  let exponent ← match rest with
    | [] => some 0
    | c :: rest => if c = 'e' ∨ c = 'E' then Decimal.readExponent rest else none
  return ofDecimal negative digits fraction exponent

/-- The value that a word writes. -/
def ofWord? (w : List Char) : Option Json :=
  match String.ofList w with
  | "null" => some null
  | "true" => some (flag true)
  | "false" => some (flag false)
  | _ => number? w

/-! ## Values -/

mutual

/-- The value of a token or group. -/
def ofTree? : Tree Token → Option Json
  | .leaf (.word w) => ofWord? w
  | .leaf (.text (some s)) => some (text s)
  | .leaf (.text none) => some brokenText
  | .leaf _ => none
  | .group .square contents => (items? contents).map list
  | .group .curly contents => (fields? contents).map object

/-- The items of a list. -/
def items? : List (Tree Token) → Option (List Json)
  | [] => some []
  | [item] => (ofTree? item).map fun item => [item]
  | item :: .leaf .comma :: next :: rest => do
    let item ← ofTree? item
    let items ← items? (next :: rest)
    return item :: items
  | _ => none

/-- The fields of an object. -/
def fields? : List (Tree Token) → Option (List (Option String × Json))
  | [] => some []
  | [.leaf (.text name), .leaf .colon, value] => (ofTree? value).map fun value => [(name, value)]
  | .leaf (.text name) :: .leaf .colon :: value :: .leaf .comma :: next :: rest => do
    let value ← ofTree? value
    let fields ← fields? (next :: rest)
    return (name, value) :: fields
  | _ => none

end

/-- The value that a text writes: one value, with blanks around it at most. -/
def ofText? (s : String) : Option Json := do
  let tokens ← scan .between s.toList []
  match ← nest Token.role tokens with
  | [tree] => ofTree? tree
  | _ => none

/-! ## Fields given twice -/

mutual

/-- The value with, in every object, only the last of the fields of one name. -/
def collapse : Json → Json
  | list items => list (collapseItems items)
  | object fields => object (lastOfEach (collapseFields fields))
  | other => other

/-- `collapse` on the items of a list. -/
def collapseItems : List Json → List Json
  | [] => []
  | item :: rest => collapse item :: collapseItems rest

/-- `collapse` on the values of fields. -/
def collapseFields : List (Option String × Json) → List (Option String × Json)
  | [] => []
  | (name, value) :: rest => (name, collapse value) :: collapseFields rest

end

end Json
end Document
end LifeCourse
