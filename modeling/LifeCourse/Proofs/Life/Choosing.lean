import LifeCourse.Life.Chain
import LifeCourse.Proofs.Rules.Coherence

/-!
# The event that an age brings

An age has a pool of events, of which at most one happens.  An entry of the pool counts if it names
an event of the rules that the filters admit (`PoolEntry.Offers`), and an event that needs no draw
forces itself on the year (`PoolEntry.Forced`).  The first entry that does so is chosen, and its
weight and all the others are of no account (`chooseEvent_of_forced`).  If there is none, the
entries that count are drawn from, in the order of the pool and each with its own weight
(`chooseEvent_of_not_forced`).

The library puts the entries that count in a list before it looks for a forced one.  That the entry
found there is the first in the pool itself, and that the list holds nothing else, is
`find?_eligibleEntries_eq_some_iff` and `map_eligibleEntries`.
-/

namespace LifeCourse

variable {rules : Ruleset} {slot : AgeSlot} {person : Person}

/-! ## Entries that count -/

/-- The filters admit the event: what forbids it does not hold, and what it requires holds. -/
structure Event.Admitted (event : Event) (lookup : Lookup) : Prop where
  forbids : ∀ condition, event.forbids = some condition → condition.holds lookup = false
  requires : ∀ condition, event.requires = some condition → condition.holds lookup = true

theorem Event.isEligible_iff {event : Event} {lookup : Lookup} :
    event.isEligible lookup = true ↔ event.Admitted lookup := by
  rw [isEligible, holdsIfAny, Bool.and_eq_true, Bool.not_eq_true', Option.any_eq_false,
    Option.all_eq_true]
  exact ⟨fun ⟨hforbids, hrequires⟩ => ⟨hforbids, hrequires⟩, fun h => ⟨h.forbids, h.requires⟩⟩

namespace PoolEntry

/-- The entry names an event of the rules, and its filters admit it. -/
structure Offers (rules : Ruleset) (person : Person) (entry : PoolEntry) (event : Event) : Prop where
  known : rules.events.find? entry.event = some event
  admitted : event.Admitted person.lookup

/-- The entry counts. -/
def Possible (rules : Ruleset) (person : Person) (entry : PoolEntry) : Prop :=
  ∃ event, entry.Offers rules person event

/-- The entry counts, and its event needs no draw. -/
def Forced (rules : Ruleset) (person : Person) (entry : PoolEntry) : Prop :=
  ∃ event, entry.Offers rules person event ∧ event.noRandom = true

/-- The entry with its event, if it counts. -/
def eligible? (rules : Ruleset) (person : Person) (entry : PoolEntry) : Option (Event × PoolEntry) :=
  ((rules.events.find? entry.event).filter fun event => event.isEligible person.lookup).map
    fun event => (event, entry)

theorem eligible?_eq_some_iff {entry : PoolEntry} {eligible : Event × PoolEntry} :
    entry.eligible? rules person = some eligible ↔
      entry.Offers rules person eligible.1 ∧ eligible.2 = entry := by
  rw [eligible?, Option.map_eq_some_iff]
  simp only [Option.filter_eq_some_iff, Event.isEligible_iff]
  constructor
  · rintro ⟨event, ⟨hfind, hadmitted⟩, rfl⟩
    exact ⟨⟨hfind, hadmitted⟩, rfl⟩
  · rintro ⟨⟨hfind, hadmitted⟩, rfl⟩
    exact ⟨eligible.1, ⟨hfind, hadmitted⟩, rfl⟩

theorem isSome_eligible?_iff {entry : PoolEntry} :
    (entry.eligible? rules person).isSome = true ↔ entry.Possible rules person := by
  simp only [Option.isSome_iff_exists, eligible?_eq_some_iff, Prod.exists, exists_eq_right, Possible]

instance (rules : Ruleset) (person : Person) (entry : PoolEntry) :
    Decidable (entry.Possible rules person) :=
  decidable_of_iff _ isSome_eligible?_iff

theorem any_eligible?_iff {entry : PoolEntry} :
    ((entry.eligible? rules person).any fun eligible => eligible.1.noRandom) = true ↔
      entry.Forced rules person := by
  simp only [Option.any_eq_true, eligible?_eq_some_iff, Prod.exists, Forced]
  constructor
  · rintro ⟨event, _, ⟨hoffers, -⟩, hforced⟩
    exact ⟨event, hoffers, hforced⟩
  · rintro ⟨event, hoffers, hforced⟩
    exact ⟨event, entry, ⟨hoffers, rfl⟩, hforced⟩

instance (rules : Ruleset) (person : Person) (entry : PoolEntry) :
    Decidable (entry.Forced rules person) :=
  decidable_of_iff _ any_eligible?_iff

end PoolEntry

/-! ## The list that is chosen from -/

variable (rules slot person) in
theorem eligibleEntries_eq :
    eligibleEntries rules slot person = slot.pool.filterMap (PoolEntry.eligible? rules person) :=
  rfl

variable (rules slot person) in
/-- **What is drawn from**: the entries that count, in the order of the pool. -/
theorem map_eligibleEntries :
    (eligibleEntries rules slot person).map (fun entry => (entry.2.event, entry.2.weight)) =
      (slot.pool.filter fun entry => entry.Possible rules person).map
        fun entry => (entry.event, entry.weight) := by
  rw [eligibleEntries_eq, List.map_filterMap, ← List.filterMap_eq_filter, List.map_filterMap]
  refine List.filterMap_congr fun entry _ => ?_
  cases heligible : entry.eligible? rules person with
  | none =>
    have hnot : ¬entry.Possible rules person := by
      rw [← PoolEntry.isSome_eligible?_iff, heligible]
      exact Bool.false_ne_true
    rw [Option.guard, if_neg (mt of_decide_eq_true hnot)]
    rfl
  | some eligible =>
    obtain ⟨hoffers, hentry⟩ := PoolEntry.eligible?_eq_some_iff.mp heligible
    rw [Option.guard, if_pos (decide_eq_true ⟨eligible.1, hoffers⟩), Option.map_some,
      Option.map_some, hentry]

/-- **What is found in the list is the first forced entry of the pool.** -/
theorem find?_eligibleEntries_eq_some_iff {eligible : Event × PoolEntry} :
    ((eligibleEntries rules slot person).find? fun entry => entry.1.noRandom) = some eligible ↔
      ∃ before after, slot.pool = before ++ eligible.2 :: after ∧
        eligible.2.Offers rules person eligible.1 ∧ eligible.1.noRandom = true ∧
        ∀ other ∈ before, ¬other.Forced rules person := by
  rw [eligibleEntries_eq, List.find?_filterMap, Option.bind_eq_some_iff]
  simp only [List.find?_eq_some_iff_append, PoolEntry.eligible?_eq_some_iff, Bool.not_eq_true',
    ← Bool.not_eq_true, PoolEntry.any_eligible?_iff]
  constructor
  · rintro ⟨entry, ⟨⟨event, hoffers, hforced⟩, before, after, hpool, hbefore⟩, hoffers', rfl⟩
    obtain rfl := Option.some.inj (hoffers.known.symm.trans hoffers'.known)
    exact ⟨before, after, hpool, hoffers, hforced, hbefore⟩
  · rintro ⟨before, after, hpool, hoffers, hforced, hbefore⟩
    exact ⟨eligible.2, ⟨⟨eligible.1, hoffers, hforced⟩, before, after, hpool, hbefore⟩, hoffers, rfl⟩

/-! ## The choice -/

/-- **The first forced entry is chosen, and nothing is drawn.** -/
theorem chooseEvent_of_forced {before after : List PoolEntry} {entry : PoolEntry} {event : Event}
    (hpool : slot.pool = before ++ entry :: after) (hoffers : entry.Offers rules person event)
    (hforced : event.noRandom = true) (hbefore : ∀ other ∈ before, ¬other.Forced rules person)
    (source : Source) : chooseEvent rules slot person source = (some entry.event, source) := by
  have hfind : ((eligibleEntries rules slot person).find? fun entry => entry.1.noRandom) =
      some (event, entry) :=
    find?_eligibleEntries_eq_some_iff.mpr ⟨before, after, hpool, hoffers, hforced, hbefore⟩
  simp only [chooseEvent, hfind]

/-- **Without a forced entry one of those that count is drawn.** -/
theorem chooseEvent_of_not_forced (h : ∀ entry ∈ slot.pool, ¬entry.Forced rules person)
    (source : Source) :
    chooseEvent rules slot person source =
      source.pick ((slot.pool.filter fun entry => entry.Possible rules person).map
        fun entry => (entry.event, entry.weight)) := by
  have hnone : ((eligibleEntries rules slot person).find? fun entry => entry.1.noRandom) = none := by
    rw [List.find?_eq_none]
    intro eligible hmem hforced
    obtain ⟨entry, hentry, heligible⟩ := List.mem_filterMap.mp hmem
    obtain ⟨hoffers, -⟩ := PoolEntry.eligible?_eq_some_iff.mp heligible
    exact h entry hentry ⟨eligible.1, hoffers, hforced⟩
  simp only [chooseEvent, hnone, map_eligibleEntries]

theorem Source.drawable_iff {weight : Float} :
    drawable weight = true ↔ weight.isFinite = true ∧ 0 < weight := by
  rw [drawable, Bool.and_eq_true, decide_eq_true_eq]

variable (rules slot person) in
/-- **What can be drawn of the entries that count.** -/
theorem exists_drawable_entry_iff (id : Int) :
    (∃ weight, (id, weight) ∈ (slot.pool.filter fun entry => entry.Possible rules person).map
        (fun entry => (entry.event, entry.weight)) ∧ Source.drawable weight = true) ↔
      ∃ entry ∈ slot.pool, ∃ event, entry.Offers rules person event ∧ entry.event = id ∧
        entry.weight.isFinite = true ∧ 0 < entry.weight := by
  constructor
  · rintro ⟨weight, hoption, hdrawable⟩
    obtain ⟨entry, hpossible, hpair⟩ := List.mem_map.mp hoption
    obtain ⟨rfl, rfl⟩ := Prod.mk.inj hpair
    obtain ⟨hentry, hpossible⟩ := List.mem_filter.mp hpossible
    obtain ⟨event, hoffers⟩ := of_decide_eq_true hpossible
    exact ⟨entry, hentry, event, hoffers, rfl, Source.drawable_iff.mp hdrawable⟩
  · rintro ⟨entry, hentry, event, hoffers, rfl, hweight⟩
    have hpossible : entry ∈ slot.pool.filter fun entry => entry.Possible rules person :=
      List.mem_filter.mpr ⟨hentry, decide_eq_true ⟨event, hoffers⟩⟩
    exact ⟨entry.weight, List.mem_map_of_mem hpossible, Source.drawable_iff.mpr hweight⟩

/-- The event that is chosen is that of an entry that counts. -/
theorem exists_offers_of_chooseEvent {source : Source} {id : Int}
    (h : (chooseEvent rules slot person source).1 = some id) :
    ∃ entry ∈ slot.pool, ∃ event, entry.Offers rules person event ∧ entry.event = id := by
  simp only [chooseEvent] at h
  split at h
  · rename_i eligible hfind
    obtain ⟨before, after, hpool, hoffers, -⟩ := find?_eligibleEntries_eq_some_iff.mp hfind
    refine ⟨eligible.2, ?_, eligible.1, hoffers, Option.some.inj h⟩
    rw [hpool]
    exact List.mem_append_cons_self
  · rw [map_eligibleEntries] at h
    obtain ⟨entry, hentry, event, hoffers, hid, -⟩ :=
      (exists_drawable_entry_iff rules slot person id).mp (Source.mem_of_pick_eq_some h)
    exact ⟨entry, hentry, event, hoffers, hid⟩

/-- **The choice of an event is exact.**  If an entry of the pool names an event of the rules that is
admitted and needs no draw, then the first such event is chosen, whatever the weights are, and
nothing is drawn.  Otherwise the entries that name admitted events of the rules are drawn from, in
order and with their weights: nothing is chosen exactly if none of them has a finite positive weight,
and then nothing is drawn either; and what is chosen is the event of one that has. -/
theorem chooseEvent_exact (hloaded : rules.Loaded) (slot : AgeSlot) (person : Person)
    (source : Source) :
    ((∃ entry ∈ slot.pool, entry.Forced rules person) →
      ∃ before entry after event, slot.pool = before ++ entry :: after ∧
        entry.Offers rules person event ∧ event.noRandom = true ∧
        (∀ other ∈ before, ¬other.Forced rules person) ∧
        chooseEvent rules slot person source = (some event.id, source)) ∧
    ((∀ entry ∈ slot.pool, ¬entry.Forced rules person) →
      chooseEvent rules slot person source =
        source.pick ((slot.pool.filter fun entry => entry.Possible rules person).map
          fun entry => (entry.event, entry.weight)) ∧
      ((chooseEvent rules slot person source).1 = none ↔
        ¬∃ entry ∈ slot.pool, ∃ event, entry.Offers rules person event ∧
          entry.weight.isFinite = true ∧ 0 < entry.weight) ∧
      ((chooseEvent rules slot person source).1 = none →
        (chooseEvent rules slot person source).2 = source) ∧
      ∀ id, (chooseEvent rules slot person source).1 = some id →
        ∃ entry ∈ slot.pool, ∃ event, entry.Offers rules person event ∧ event.id = id ∧
          entry.weight.isFinite = true ∧ 0 < entry.weight) := by
  have hid : ∀ {entry event}, PoolEntry.Offers rules person entry event → event.id = entry.event :=
    fun hoffers => hloaded.coherent.events _ _ hoffers.known
  constructor
  · rintro ⟨entry, hentry, event, hoffers, hforced⟩
    have hmem : (event, entry) ∈ eligibleEntries rules slot person :=
      List.mem_filterMap.mpr ⟨entry, hentry, PoolEntry.eligible?_eq_some_iff.mpr ⟨hoffers, rfl⟩⟩
    obtain ⟨first, hfirst⟩ : ∃ first, ((eligibleEntries rules slot person).find?
        fun entry => entry.1.noRandom) = some first :=
      Option.isSome_iff_exists.mp (List.find?_isSome.mpr ⟨_, hmem, hforced⟩)
    obtain ⟨before, after, hpool, hoffers, hforced, hbefore⟩ :=
      find?_eligibleEntries_eq_some_iff.mp hfirst
    refine ⟨before, first.2, after, first.1, hpool, hoffers, hforced, hbefore, ?_⟩
    rw [chooseEvent_of_forced hpool hoffers hforced hbefore, hid hoffers]
  · intro hnot
    have hdraw := chooseEvent_of_not_forced hnot source
    refine ⟨hdraw, ?_, fun hnone => ?_, fun id hsome => ?_⟩
    · rw [hdraw, Source.pick_eq_none_iff_forall]
      simp only [exists_drawable_entry_iff]
      constructor
      · rintro hnone ⟨entry, hentry, event, hoffers, hweight⟩
        exact hnone entry.event ⟨entry, hentry, event, hoffers, rfl, hweight⟩
      · rintro hnone id ⟨entry, hentry, event, hoffers, -, hweight⟩
        exact hnone ⟨entry, hentry, event, hoffers, hweight⟩
    · rw [hdraw] at hnone ⊢
      exact Source.pick_snd_of_eq_none hnone
    · rw [hdraw] at hsome
      obtain ⟨entry, hentry, event, hoffers, rfl, hweight⟩ :=
        (exists_drawable_entry_iff rules slot person id).mp (Source.mem_of_pick_eq_some hsome)
      exact ⟨entry, hentry, event, hoffers, hid hoffers, hweight⟩

/-! ## An event that is last and without weight -/

/-- A draft of rules in which the pools of three ages begin with an unknown event and one that is
forbidden.  Then the first pool has an event that needs no draw, last and without weight; the second
has only events without weight; and the third has one with a weight. -/
def wilfulDraft : Draft where
  events := [("1", {}),
    ("2", { noRandom := some true, forbids := some (.condition "") }),
    ("3", { noRandom := some true, requires := some (.condition "") })]
  ages := [
    ("0", { pool := some [.pair 9 1, .pair 2 1, .pair 1 1, .pair 3 0] }),
    ("1", { pool := some [.pair 9 1, .pair 2 1, .pair 1 0] }),
    ("2", { pool := some [.pair 9 1, .pair 2 1, .pair 1 (1 / 0), .pair 1 2] })]

/-- The ages of the draft. -/
def wilfulSlot : Nat → AgeSlot
  | 0 => ⟨0, [], [⟨9, 1⟩, ⟨2, 1⟩, ⟨1, 1⟩, ⟨3, 0⟩]⟩
  | 1 => ⟨1, [], [⟨9, 1⟩, ⟨2, 1⟩, ⟨1, 0⟩]⟩
  | _ => ⟨2, [], [⟨9, 1⟩, ⟨2, 1⟩, ⟨1, 1 / 0⟩, ⟨1, 2⟩]⟩

/-- The rules of the draft. -/
def wilfulRules : Ruleset where
  talents := .empty
  events := .ofList [
    (1, .ofText 1 ""),
    (2, { Event.ofText 2 "" with noRandom := true, forbids := some (.ofText "") }),
    (3, { Event.ofText 3 "" with noRandom := true, requires := some (.ofText "") })]
  ages := .ofList [(0, wilfulSlot 0), (1, wilfulSlot 1), (2, wilfulSlot 2)]
  achievements := .empty
  rubrics := .empty
  settings := .standard

/-- The third event is chosen of the first pool, none of the second and the first one of the last,
whatever the source is. -/
theorem chooseEvent_exact_wilful : wilfulDraft.build = .ok wilfulRules ∧
    ∀ source : Source,
      chooseEvent wilfulRules (wilfulSlot 0) (.unborn .standard) source = (some 3, source) ∧
      chooseEvent wilfulRules (wilfulSlot 1) (.unborn .standard) source = (none, source) ∧
      (chooseEvent wilfulRules (wilfulSlot 2) (.unborn .standard) source).1 = some 1 := by
  have hbuild : wilfulDraft.build = .ok wilfulRules := rfl
  have hloaded : wilfulRules.Loaded := .build hbuild
  refine ⟨hbuild, fun source => ⟨?_, ?_, ?_⟩⟩
  · obtain ⟨before, entry, after, event, hpool, hoffers, hforced, -, hchosen⟩ :=
      (chooseEvent_exact hloaded (wilfulSlot 0) (.unborn .standard) source).1 (by decide)
    have hthird : ∀ entry ∈ (wilfulSlot 0).pool,
        entry.Forced wilfulRules (.unborn .standard) → entry.event = 3 := by decide
    have hentry : entry ∈ (wilfulSlot 0).pool := by
      rw [hpool]
      exact List.mem_append_cons_self
    rw [hchosen, hloaded.coherent.events _ _ hoffers.known,
      hthird entry hentry ⟨event, hoffers, hforced⟩]
  · obtain ⟨-, hnone, hsource, -⟩ :=
      (chooseEvent_exact hloaded (wilfulSlot 1) (.unborn .standard) source).2 (by decide)
    have hweightless : ∀ entry ∈ (wilfulSlot 1).pool,
        entry.Possible wilfulRules (.unborn .standard) → ¬0 < entry.weight := by decide
    have hnothing := hnone.mpr fun ⟨entry, hentry, event, hoffers, _, hpositive⟩ =>
      hweightless entry hentry ⟨event, hoffers⟩ hpositive
    exact Prod.ext hnothing (hsource hnothing)
  · obtain ⟨-, hnone, -, hsome⟩ :=
      (chooseEvent_exact hloaded (wilfulSlot 2) (.unborn .standard) source).2 (by decide)
    have hfirst : ∀ entry ∈ (wilfulSlot 2).pool,
        entry.Possible wilfulRules (.unborn .standard) → entry.event = 1 := by decide
    have hweighty : ∃ entry ∈ (wilfulSlot 2).pool,
        ∃ event, entry.Offers wilfulRules (.unborn .standard) event ∧
          entry.weight.isFinite = true ∧ 0 < entry.weight :=
      ⟨⟨1, 2⟩, by simp [wilfulSlot], .ofText 1 "", ⟨rfl, Event.isEligible_iff.mp rfl⟩, by decide⟩
    cases hchosen : (chooseEvent wilfulRules (wilfulSlot 2) (.unborn .standard) source).1 with
    | none => exact absurd hweighty (hnone.mp hchosen)
    | some id =>
      obtain ⟨entry, hentry, event, hoffers, hid, -⟩ := hsome id hchosen
      rw [← hid, hloaded.coherent.events _ _ hoffers.known, hfirst entry hentry ⟨event, hoffers⟩]

end LifeCourse
