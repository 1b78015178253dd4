/-!
# Conditions as expressions

A condition compares named values of a life with constants and joins comparisons by
"and" and "or".  A named value is a whole number (`CHR`, `AGE`, `SUM`) or a list of
ids (`TLT`, `EVT`, `ACH`), and so is a constant, which may be a decimal too.  What a
comparison means depends on both kinds:

* number with number: the six comparisons, a decimal constant compared as a float;
* number with list: `?` holds if the number is in the list, `!` if it is not;
* list with number: `=` holds if the number is in the list, `!=` if it is not;
* list with list: `?` holds if they share an element, `!` if they share none.

Every other combination is false, and so is a comparison of a name that the life does
not know.
-/

namespace LifeCourse

/-- A named value as a condition sees it. -/
inductive Value where
  | whole (n : Int)
  | list (ids : List Int)
  deriving DecidableEq, Repr

/-- The named values that a condition may ask for. -/
abbrev Lookup := String → Option Value

/-- A comparison operator. -/
inductive Operator where
  | greater
  | less
  | greaterEqual
  | lessEqual
  | equal
  | notEqual
  | includesAny
  | excludesAll
  deriving DecidableEq, Repr

/-- The sign of an operator. -/
def Operator.sign : Operator → List Char
  | .greater => ['>']
  | .less => ['<']
  | .greaterEqual => ['>', '=']
  | .lessEqual => ['<', '=']
  | .equal => ['=']
  | .notEqual => ['!', '=']
  | .includesAny => ['?']
  | .excludesAll => ['!']

/-- The constant of a comparison. -/
inductive Operand where
  | whole (n : Int)
  | decimal (x : Float)
  | list (ids : List Int)

/-- A condition that has been read. -/
inductive Expr where
  | compare (name : String) (op : Operator) (operand : Operand)
  | and (left right : Expr)
  | or (left right : Expr)

namespace Operator

/-- A comparison of two whole numbers. -/
def compareWhole (op : Operator) (m n : Int) : Bool :=
  match op with
  | greater => m > n
  | less => m < n
  | greaterEqual => m ≥ n
  | lessEqual => m ≤ n
  | equal => m == n
  | notEqual => m != n
  | includesAny | excludesAll => false

/-- A comparison of a whole number with a decimal. -/
def compareDecimal (op : Operator) (m : Int) (x : Float) : Bool :=
  match op with
  | greater => Float.ofInt m > x
  | less => Float.ofInt m < x
  | greaterEqual => Float.ofInt m ≥ x
  | lessEqual => Float.ofInt m ≤ x
  | equal => Float.ofInt m == x
  | notEqual => Float.ofInt m != x
  | includesAny | excludesAll => false

/-- A comparison of a value with a constant. -/
def compare (op : Operator) : Value → Operand → Bool
  | .whole m, .whole n => op.compareWhole m n
  | .whole m, .decimal x => op.compareDecimal m x
  | .whole m, .list ids =>
    match op with
    | includesAny => ids.contains m
    | excludesAll => !ids.contains m
    | _ => false
  | .list ids, .whole n =>
    match op with
    | equal => ids.contains n
    | notEqual => !ids.contains n
    | _ => false
  | .list ids, .list ids' =>
    match op with
    | includesAny => ids.any ids'.contains
    | excludesAll => ids.all fun id => !ids'.contains id
    | _ => false
  | .list _, .decimal _ => false

end Operator

namespace Expr

/-- Whether the expression holds of the named values. -/
def holds (lookup : Lookup) : Expr → Bool
  | .compare name op operand =>
    match lookup name with
    | some value => op.compare value operand
    | none => false
  | .and left right => left.holds lookup && right.holds lookup
  | .or left right => left.holds lookup || right.holds lookup

/-- The names that the expression asks for. -/
def names : Expr → List String
  | .compare name _ _ => [name]
  | .and left right => left.names ++ right.names
  | .or left right => left.names ++ right.names

/-- An expression depends only on the names that it asks for. -/
theorem holds_congr {e : Expr} {lookup lookup' : Lookup}
    (h : ∀ name ∈ e.names, lookup name = lookup' name) : e.holds lookup = e.holds lookup' := by
  induction e with
  | compare name op operand => simp [holds, h name (by simp [names])]
  | and left right ihl ihr =>
    simp only [names, List.mem_append] at h
    simp [holds, ihl fun name hn => h name (.inl hn), ihr fun name hn => h name (.inr hn)]
  | or left right ihl ihr =>
    simp only [names, List.mem_append] at h
    simp [holds, ihl fun name hn => h name (.inl hn), ihr fun name hn => h name (.inr hn)]

end Expr
end LifeCourse
