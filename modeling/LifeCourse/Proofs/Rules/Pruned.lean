import LifeCourse.Life.Chain
import LifeCourse.Proofs.Rules.Coherence

/-!
# Pruned rules

Rules may hold things that can be understood and never do anything: references to talents and events
that are not there, weights with which nothing is drawn, achievements that are never checked.
`Ruleset.pruned` is the rules without them.

Taken out are, of a talent, the unknown ids among those that it excludes and among those that may
replace it, and whatever may replace it with a weight that cannot be drawn; of an event, an unknown one
that would follow it; of an age, the unknown talents and the entries of its pool that name an unknown
event or can be neither drawn nor chosen without a draw; and the achievements without a checkpoint.
Branches stay as they are: a branch to an unknown event still takes the place of what would follow.

Each table is pruned value by value (`Table.mapValues`, `Table.filterValues`), so its keys are the same,
except for those of the achievements.  What an entity still says when it is pruned is said beside its
definition.
-/

namespace LifeCourse

/-! ## Tables -/

namespace Table

variable {κ α β : Type} [LE κ] [LT κ] [DecidableLT κ] [Std.IsLinearOrder κ] [Std.LawfulOrderLT κ]

/-- The table with a function applied to each value. -/
def mapValues (f : α → β) (table : Table κ α) : Table κ β :=
  ⟨table.entries.map fun entry => (entry.1, f entry.2), List.pairwise_map.mpr table.ascending⟩

/-- The entries whose values meet a test. -/
def filterValues (p : α → Bool) (table : Table κ α) : Table κ α :=
  ⟨table.entries.filter fun entry => p entry.2, table.ascending.filter _⟩

omit [LE κ] [Std.IsLinearOrder κ] [Std.LawfulOrderLT κ] in
theorem find?_mapValues (f : α → β) (table : Table κ α) (k : κ) :
    (table.mapValues f).find? k = (table.find? k).map f := by
  unfold find? mapValues
  simp only
  induction table.entries with
  | nil => rfl
  | cons entry rest ih =>
    rw [List.map_cons, lookup, lookup, ih]
    split
    · rfl
    · split
      · rfl
      · rfl

omit [LE κ] [DecidableLT κ] [Std.IsLinearOrder κ] [Std.LawfulOrderLT κ] in
theorem values_mapValues (f : α → β) (table : Table κ α) :
    (table.mapValues f).values = table.values.map f := by
  rw [values, values, mapValues, List.map_map, List.map_map]
  rfl

omit [LE κ] [DecidableLT κ] [Std.IsLinearOrder κ] [Std.LawfulOrderLT κ] in
theorem values_filterValues (p : α → Bool) (table : Table κ α) :
    (table.filterValues p).values = table.values.filter p := by
  rw [values, values, filterValues, List.filter_map]
  rfl

end Table

/-! ## Entities -/

namespace Ruleset

/-- Whether the rules have a talent. -/
def hasTalent (rules : Ruleset) (id : Int) : Bool :=
  (rules.talents.find? id).isSome

/-- Whether the rules have an event. -/
def hasEvent (rules : Ruleset) (id : Int) : Bool :=
  (rules.events.find? id).isSome

end Ruleset

/-- The rule without unknown talents and without weights that cannot be drawn. -/
def Replacement.pruned (rules : Ruleset) (rule : Replacement) : Replacement where
  grades := rule.grades.filter fun entry => Source.drawable entry.2
  talents := rule.talents.filter fun entry => rules.hasTalent entry.1 && Source.drawable entry.2

/-- The talent without the unknown ones among those that it excludes, and with its replacement
pruned. -/
def Talent.pruned (rules : Ruleset) (talent : Talent) : Talent :=
  { talent with
    exclude := talent.exclude.filter rules.hasTalent
    replacement := talent.replacement.map (Replacement.pruned rules) }

/-- Whether there is something that follows. -/
def FollowUp.leads (rules : Ruleset) : FollowUp → Bool
  | .event id => rules.hasEvent id
  | .text _ => true

/-- The event without an unknown one that would follow it. -/
def Event.pruned (rules : Ruleset) (event : Event) : Event :=
  { event with followUp := event.followUp.filter (FollowUp.leads rules) }

/-- Whether the entry names an event that can be drawn or needs no draw. -/
def PoolEntry.counts (rules : Ruleset) (entry : PoolEntry) : Bool :=
  (rules.events.find? entry.event).any fun event =>
    Source.drawable entry.weight || event.noRandom

/-- The age without unknown talents, and with the entries of its pool that count. -/
def AgeSlot.pruned (rules : Ruleset) (slot : AgeSlot) : AgeSlot :=
  { slot with
    talents := slot.talents.filter rules.hasTalent
    pool := slot.pool.filter (PoolEntry.counts rules) }

/-- The rules without what never does anything. -/
def Ruleset.pruned (rules : Ruleset) : Ruleset :=
  { rules with
    talents := rules.talents.mapValues (Talent.pruned rules)
    events := rules.events.mapValues (Event.pruned rules)
    ages := rules.ages.mapValues (AgeSlot.pruned rules)
    achievements := rules.achievements.filterValues fun achievement =>
      achievement.opportunity.isSome }

/-! ## What the pruned tables answer -/

namespace Ruleset

variable (rules : Ruleset)

@[simp] theorem find?_talents_pruned (id : Int) :
    rules.pruned.talents.find? id = (rules.talents.find? id).map (Talent.pruned rules) :=
  Table.find?_mapValues _ _ id

@[simp] theorem find?_events_pruned (id : Int) :
    rules.pruned.events.find? id = (rules.events.find? id).map (Event.pruned rules) :=
  Table.find?_mapValues _ _ id

@[simp] theorem find?_ages_pruned (age : Int) :
    rules.pruned.ages.find? age = (rules.ages.find? age).map (AgeSlot.pruned rules) :=
  Table.find?_mapValues _ _ age

theorem values_talents_pruned :
    rules.pruned.talents.values = rules.talents.values.map (Talent.pruned rules) :=
  Table.values_mapValues _ _

@[simp] theorem settings_pruned : rules.pruned.settings = rules.settings := rfl

theorem known_pruned (ids : List Int) :
    rules.pruned.known ids = (rules.known ids).map (Talent.pruned rules) := by
  rw [known, known, List.map_filterMap]
  exact List.filterMap_congr fun id _ => rules.find?_talents_pruned id

variable {rules : Ruleset}

theorem hasTalent_of_find? {id : Int} {talent : Talent}
    (h : rules.talents.find? id = some talent) : rules.hasTalent id = true := by
  rw [hasTalent, h]
  rfl

end Ruleset

/-! ## What pruned entities say -/

variable {rules : Ruleset}

namespace Talent

@[simp] theorem id_pruned (talent : Talent) : (talent.pruned rules).id = talent.id := rfl

@[simp] theorem holds_pruned (talent : Talent) (lookup : Lookup) :
    (talent.pruned rules).holds lookup = talent.holds lookup := rfl

/-- A talent of the rules is excluded as before. -/
theorem excludes_pruned (talent : Talent) {id : Int} (h : rules.hasTalent id = true) :
    (talent.pruned rules).excludes id = talent.excludes id := by
  rw [Bool.eq_iff_iff, excludes, excludes, pruned, List.contains_iff_mem, List.contains_iff_mem,
    List.mem_filter]
  exact and_iff_left h

/-- **Two talents of the rules conflict as before.** -/
theorem conflicts_pruned {a b : Talent} (ha : rules.hasTalent a.id = true)
    (hb : rules.hasTalent b.id = true) :
    (a.pruned rules).conflicts (b.pruned rules) = a.conflicts b := by
  rw [conflicts, conflicts, id_pruned, id_pruned, a.excludes_pruned hb, b.excludes_pruned ha]

end Talent

namespace Event

variable (event : Event) (lookup : Lookup)

@[simp] theorem isEligible_pruned :
    (event.pruned rules).isEligible lookup = event.isEligible lookup := rfl

@[simp] theorem noRandom_pruned : (event.pruned rules).noRandom = event.noRandom := rfl

@[simp] theorem branch?_pruned : (event.pruned rules).branch? lookup = event.branch? lookup := rfl

/-- What comes next is as before, unless it was unknown. -/
theorem next?_pruned :
    (event.pruned rules).next? lookup = (event.next? lookup).filter
      fun next => (event.branch? lookup).isSome || rules.hasEvent next := by
  unfold next?
  rw [branch?_pruned, pruned]
  cases event.branch? lookup with
  | some target => rfl
  | none =>
    cases event.followUp with
    | none => rfl
    | some followUp =>
      cases followUp with
      | text s => rfl
      | event id =>
        have hleads : FollowUp.leads rules (.event id) = rules.hasEvent id := rfl
        simp only [Option.filter_some, Option.isSome_none, Bool.false_or]
        rw [hleads]
        cases rules.hasEvent id with
        | true => rfl
        | false => rfl

/-- It tells the same. -/
theorem telling_pruned : (event.pruned rules).telling lookup = event.telling lookup := by
  unfold telling
  rw [branch?_pruned, pruned]
  cases event.branch? lookup with
  | some target => rfl
  | none =>
    cases event.followUp with
    | none => rfl
    | some followUp =>
      cases followUp with
      | text s => rfl
      | event id =>
        rw [Option.filter_some]
        cases FollowUp.leads rules (.event id) with
        | true => rfl
        | false => rfl

end Event
end LifeCourse
