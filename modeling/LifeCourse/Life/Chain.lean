import LifeCourse.Person
import LifeCourse.Rules.Ruleset

/-!
# Event chains

In a year at most one event is chosen from the pool of the age, and it may lead to
others.  An event that needs no draw is chosen before any other; else one of the
eligible events is drawn by weight.

A chain is the list of its links.  Each link is an event with the person right after its
effect, and where the chain goes next depends on these two alone (`Event.next?`).  So
does what the link tells.  A chain ends where there is no next event, at an id that
names none, or at the number of links that the settings allow.
-/

namespace LifeCourse

/-! ## Choosing -/

/-- The entries of a pool whose events exist and are eligible. -/
def eligibleEntries (rules : Ruleset) (slot : AgeSlot) (person : Person) :
    List (Event × PoolEntry) :=
  slot.pool.filterMap fun entry =>
    ((rules.events.find? entry.event).filter fun event => event.isEligible person.lookup).map
      fun event => (event, entry)

/-- The id of the event that is chosen from a pool. -/
def chooseEvent (rules : Ruleset) (slot : AgeSlot) (person : Person) (source : Source) :
    Option Int × Source :=
  let entries := eligibleEntries rules slot person
  match entries.find? fun entry => entry.1.noRandom with
  | some entry => (some entry.2.event, source)
  | none => source.pick (entries.map fun entry => (entry.2.event, entry.2.weight))

/-! ## Following -/

namespace Event

/-- The event that comes next: the target of a branch, else the event that follows. -/
def next? (event : Event) (lookup : Lookup) : Option Int :=
  match event.branch? lookup, event.followUp with
  | some target, _ => some target
  | none, some (.event id) => some id
  | none, _ => none

/-- What the event tells: its text, and the text that follows when no branch is taken. -/
def telling (event : Event) (lookup : Lookup) : String :=
  match event.branch? lookup, event.followUp with
  | none, some (.text s) => event.text ++ s
  | _, _ => event.text

end Event

/-- An event of a chain, and the person right after its effect. -/
structure Link where
  id : Int
  event : Event
  person : Person

/-- What the link tells. -/
def Link.telling (link : Link) : String :=
  link.event.telling link.person.lookup

/-- The links from an event on, no more than a number of them. -/
def chainFrom (rules : Ruleset) :
    Nat → Int → Person → Source → List Link × Person × Source
  | 0, _, person, source => ([], person, source)
  | links + 1, id, person, source =>
    match rules.events.find? id with
    | none => ([], person, source)
    | some event =>
      let (person, source) := (person.recordEvent id).applyIfAny event.effect source
      let link : Link := ⟨id, event, person⟩
      match event.next? person.lookup with
      | none => ([link], person, source)
      | some next =>
        let (rest, result) := chainFrom rules links next person source
        (link :: rest, result)

theorem length_chainFrom_le (rules : Ruleset) (links : Nat) (id : Int) (person : Person)
    (source : Source) : (chainFrom rules links id person source).1.length ≤ links := by
  induction links generalizing id person source with
  | zero => exact Nat.le_refl 0
  | succ links ih =>
    unfold chainFrom
    split
    · exact Nat.zero_le _
    · simp only
      split
      · exact Nat.succ_le_succ (Nat.zero_le _)
      · exact Nat.succ_le_succ (ih _ _ _)

/-- The chain of an event. -/
def fireEvent (rules : Ruleset) (first : Int) (person : Person) (source : Source) :
    List Link × Person × Source :=
  chainFrom rules rules.settings.maxChainDepth first person source

/-- Whether a chain ends the life. -/
def endsLife (chain : List Link) : Bool :=
  chain.any fun link => link.event.terminal

/-- The chain that an age brings. -/
def ageChain (rules : Ruleset) (slot : AgeSlot) (person : Person) (source : Source) :
    List Link × Person × Source :=
  match chooseEvent rules slot person source with
  | (some first, source) => fireEvent rules first person source
  | (none, source) => ([], person, source)

end LifeCourse
