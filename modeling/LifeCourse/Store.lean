import LifeCourse.Draft.Loading
import LifeCourse.Life.Session

/-!
# The store

A store holds the one ruleset that a program works with.  It is installed once: the
first call that brings a ruleset installs it, every later one fails, and lives can be
simulated from then on.  A document that makes no ruleset fails for its own reason,
whether or not there is a ruleset already.

The calls are functions from a store to an answer and the store after it, so what
happens to a store is told by the list of calls in the order in which they took effect.
-/

namespace LifeCourse

/-- The ruleset of a program, once it is installed. -/
structure Store where
  rules : Option Ruleset

namespace Store

/-- The store without a ruleset. -/
def empty : Store :=
  ⟨none⟩

/-- Whether a ruleset is installed. -/
def isInitialized (store : Store) : Bool :=
  store.rules.isSome

/-- Installs a ruleset, unless one is installed. -/
def init (store : Store) (rules : Ruleset) : Except Failure Unit × Store :=
  match store.rules with
  | none => (.ok (), ⟨some rules⟩)
  | some _ => (.error .alreadyInitialized, store)

/-- Installs a ruleset that may have failed to load. -/
def initLoaded (store : Store) : Except Failure Ruleset → Except Failure Unit × Store
  | .ok rules => store.init rules
  | .error failure => (.error failure, store)

/-- Installs the ruleset of a JSON text. -/
def initJson (store : Store) (text : String) : Except Failure Unit × Store :=
  store.initLoaded (Ruleset.ofJson text)

/-- The session of a request by the installed ruleset. -/
def simulate (store : Store) (request : Request) (atHand : Source) : Except Failure Session :=
  match store.rules with
  | none => .error .notInitialized
  | some rules => LifeCourse.simulate rules request atHand

/-! ## Sequences of calls -/

/-- A call on a store. -/
inductive Call where
  | init (rules : Ruleset)
  | initJson (text : String)
  | isInitialized
  | simulate (request : Request) (atHand : Source)

/-- The answer to a call. -/
inductive Answer where
  | installed (result : Except Failure Unit)
  | truth (b : Bool)
  | session (result : Except Failure Session)

/-- The answer to a call, and the store after it. -/
def step (store : Store) : Call → Answer × Store
  | .init rules =>
    let (result, store) := store.init rules
    (.installed result, store)
  | .initJson text =>
    let (result, store) := store.initJson text
    (.installed result, store)
  | .isInitialized => (.truth store.isInitialized, store)
  | .simulate request atHand => (.session (store.simulate request atHand), store)

/-- The answers to calls one after another, and the store after them. -/
def run (store : Store) : List Call → List Answer × Store
  | [] => ([], store)
  | call :: calls =>
    let (answer, store) := store.step call
    let (answers, store) := store.run calls
    (answer :: answers, store)

/-- Calls made after others find the store as those left it. -/
theorem run_append (store : Store) (calls calls' : List Call) :
    store.run (calls ++ calls') =
      ((store.run calls).1 ++ ((store.run calls).2.run calls').1,
        ((store.run calls).2.run calls').2) := by
  induction calls generalizing store with
  | nil => rfl
  | cons call calls ih => simp [run, ih]

end Store
end LifeCourse
