import LifeCourse.Proofs.Life.Chronicle

/-!
# The extremes of a life

A gauge keeps a stat with its highest and lowest value.  That these are the greatest and the least
of all values which the stat has had is a statement about a list of values, kept beside the person:
`Person.Spans person stat values` says that the stat has had these values, in this order.

## One write at a time

No operation writes more than one stat at a time, and a write of a stat makes its gauge reach the
new value (`Person.Moves`).  An effect makes several writes, and its random amount may fall on a stat
that it has just changed; the persons in between are therefore listed as well (`Person.along`).
Every law follows from the one step `Person.Spans.moves`, which adds a value to the list whether it
is new or not.

Only a value that is given out begins a new list.  Since this happens before a life begins, the
values of a life are those from the person of its request on, along the incidents of its chronicle
(`Life.persons`).
-/

namespace LifeCourse

variable {rules : Ruleset}

/-! ## The values of a stat -/

theorem max?_concat {values : List Int} {highest : Int} (h : values.max? = some highest)
    (value : Int) : (values ++ [value]).max? = some (max highest value) := by
  cases values with
  | nil => cases h
  | cons first rest =>
    rw [List.max?_cons'] at h
    rw [List.cons_append, List.max?_cons', List.foldl_append, Option.some.inj h]
    rfl

theorem min?_concat {values : List Int} {lowest : Int} (h : values.min? = some lowest)
    (value : Int) : (values ++ [value]).min? = some (min lowest value) := by
  cases values with
  | nil => cases h
  | cons first rest =>
    rw [List.min?_cons'] at h
    rw [List.cons_append, List.min?_cons', List.foldl_append, Option.some.inj h]
    rfl

namespace Person

/-- The stat has had the values, of which the last is its present one. -/
structure Spans (person : Person) (stat : Stat) (values : List Int) : Prop where
  current : values.getLast? = some (person.current stat)
  highest : values.max? = some (person.highest stat)
  lowest : values.min? = some (person.lowest stat)

/-- What a write does to a stat: its gauge is as it was, or has reached a value. -/
def Moves (stat : Stat) (p q : Person) : Prop :=
  q.gauges.get stat = p.gauges.get stat ∨
    q.gauges.get stat = (p.gauges.get stat).reach (q.current stat)

theorem moves_of_gauges {p q : Person} (h : q.gauges = p.gauges) (stat : Stat) :
    Moves stat p q :=
  .inl (by rw [h])

theorem moves_set (person : Person) (stat stat' : Stat) (value : Int) :
    Moves stat person (person.set stat' value) := by
  by_cases hself : stat = stat'
  · subst hself
    rw [Moves, current_set_self]
    exact .inr (person.gauge_set_self stat value)
  · exact .inl (person.gauge_set_of_ne value hself)

theorem moves_change (person : Person) (stat stat' : Stat) (amount : Int) :
    Moves stat person (person.change stat' amount) := by
  unfold change
  split
  · exact moves_of_gauges rfl stat
  · exact moves_set person stat stat' _

theorem moves_allocate_of_ne (person : Person) {stat stat' : Stat} (value : Int)
    (h : stat ≠ stat') : Moves stat person (person.allocate stat' value) :=
  .inl (person.gauge_allocate_of_ne value h)

namespace Spans

variable {person q : Person} {stat : Stat} {values : List Int}

/-- The present value lies between the extremes. -/
theorem between (h : person.Spans stat values) :
    person.lowest stat ≤ person.current stat ∧ person.current stat ≤ person.highest stat := by
  have hmem := List.mem_of_getLast? h.current
  exact ⟨(List.min?_eq_some_iff.mp h.lowest).2 _ hmem,
    (List.max?_eq_some_iff.mp h.highest).2 _ hmem⟩

/-- A stat that is started anew has had one value. -/
theorem of_start (h : person.gauges.get stat = .start (person.current stat)) :
    person.Spans stat [person.current stat] := by
  have hhighest : person.highest stat = person.current stat := congrArg Gauge.highest h
  have hlowest : person.lowest stat = person.current stat := congrArg Gauge.lowest h
  refine ⟨rfl, ?_, ?_⟩
  · rw [hhighest]
    rfl
  · rw [hlowest]
    rfl

/-- **A write adds a value.** -/
theorem moves (h : person.Spans stat values) (hmoves : Moves stat person q) :
    q.Spans stat (values ++ [q.current stat]) := by
  have hbetween := h.between
  have hextremes : q.highest stat = max (person.highest stat) (q.current stat) ∧
      q.lowest stat = min (person.lowest stat) (q.current stat) := by
    rcases hmoves with hsame | hreach
    · have hcurrent : q.current stat = person.current stat := congrArg Gauge.current hsame
      have hhighest : q.highest stat = person.highest stat := congrArg Gauge.highest hsame
      have hlowest : q.lowest stat = person.lowest stat := congrArg Gauge.lowest hsame
      omega
    · exact ⟨congrArg Gauge.highest hreach, congrArg Gauge.lowest hreach⟩
  refine ⟨List.getLast?_concat, ?_, ?_⟩
  · rw [hextremes.1]
    exact max?_concat h.highest _
  · rw [hextremes.2]
    exact min?_concat h.lowest _

end Spans

/-! ## Effects -/

/-- The persons that changes of some stats lead through, one after another. -/
def changes (amounts : PerStat Int) : Person → List Stat → List Person
  | _, [] => []
  | person, stat :: rest =>
    person.change stat (amounts.get stat) ::
      changes amounts (person.change stat (amounts.get stat)) rest

/-- The persons that an effect leads through until after it: the changes of all stats, then the
random one. -/
def along (person : Person) (effect : Option Effect) (after : Person) : List Person :=
  match effect with
  | none => [after]
  | some effect => person.changes effect.amounts Stat.all ++ [after]

theorem Spans.changes {person : Person} {stat : Stat} {values : List Int}
    (h : person.Spans stat values) (amounts : PerStat Int) (stats : List Stat) :
    (stats.foldl (fun person stat => person.change stat (amounts.get stat)) person).Spans stat
      (values ++ (person.changes amounts stats).map fun q => q.current stat) := by
  induction stats generalizing person values with
  | nil => rwa [Person.changes, List.map_nil, List.append_nil]
  | cons first rest ih =>
    have hrest := ih (h.moves (person.moves_change stat first (amounts.get first)))
    rwa [List.append_assoc, List.singleton_append] at hrest

/-- **An effect adds the values that its changes lead through.** -/
theorem Spans.applyIfAny {person : Person} {stat : Stat} {values : List Int}
    (h : person.Spans stat values) (effect : Option Effect) (source : Source) :
    (person.applyIfAny effect source).1.Spans stat
      (values ++ (person.along effect (person.applyIfAny effect source).1).map
        fun q => q.current stat) := by
  cases effect with
  | none => exact h.moves (moves_of_gauges rfl stat)
  | some effect =>
    have hall := h.changes effect.amounts Stat.all
    have hrandom : Moves stat (person.changeAll effect.amounts) (person.apply effect source).1 := by
      unfold apply
      split
      · exact moves_of_gauges rfl stat
      · exact moves_change _ _ _ _
    rw [along, List.map_append, ← List.append_assoc]
    exact hall.moves hrandom

end Person

/-! ## Operations -/

/-- An operation on the stats of a person. -/
inductive Operation where
  | allocate (stat : Stat) (value : Int)
  | set (stat : Stat) (value : Int)
  | change (stat : Stat) (amount : Int)
  | apply (effect : Effect) (source : Source)
  | nextYear

namespace Operation

/-- The person after an operation. -/
def run (person : Person) : Operation → Person
  | allocate stat value => person.allocate stat value
  | set stat value => person.set stat value
  | change stat amount => person.change stat amount
  | apply effect source => (person.apply effect source).1
  | nextYear => person.nextYear

/-- The persons that an operation leads through, one write after another. -/
def persons (person : Person) : Operation → List Person
  | apply effect source => person.along (some effect) (person.apply effect source).1
  | operation => [operation.run person]

/-- Whether an operation starts a stat anew. -/
def restarts (stat : Stat) : Operation → Bool
  | allocate stat' _ => stat = stat'
  | _ => false

/-- The values that a stat has had after an operation, if it has had some before. -/
def held (stat : Stat) (person : Person) (values : List Int) (operation : Operation) : List Int :=
  (if operation.restarts stat then [] else values) ++
    (operation.persons person).map fun q => q.current stat

/-- The values that a stat has had after several operations. -/
def heldEach (stat : Stat) : Person → List Int → List Operation → List Int
  | _, values, [] => values
  | person, values, operation :: rest =>
    heldEach stat (operation.run person) (operation.held stat person values) rest

/-- **Every operation keeps the extremes exact.** -/
theorem spans_run {person : Person} {stat : Stat} {values : List Int}
    (h : person.Spans stat values) (operation : Operation) :
    (operation.run person).Spans stat (operation.held stat person values) := by
  cases operation with
  | allocate stat' value =>
    by_cases hself : stat = stat'
    · subst hself
      have hstart := person.gauge_allocate_self stat value
      have hcurrent : (person.allocate stat value).current stat = value :=
        congrArg Gauge.current hstart
      rw [held, restarts, if_pos (decide_eq_true rfl)]
      exact .of_start (by rw [run, hcurrent, hstart])
    · rw [held, restarts, if_neg (by simpa using hself)]
      exact h.moves (person.moves_allocate_of_ne value hself)
  | set stat' value => exact h.moves (person.moves_set stat stat' value)
  | change stat' amount => exact h.moves (person.moves_change stat stat' amount)
  | apply effect source => exact h.applyIfAny (some effect) source
  | nextYear => exact h.moves (person.moves_set stat .age _)

/-- Several operations keep the extremes exact. -/
theorem spans_foldl_run {person : Person} {stat : Stat} {values : List Int}
    (h : person.Spans stat values) (operations : List Operation) :
    (operations.foldl run person).Spans stat (heldEach stat person values operations) := by
  induction operations generalizing person values with
  | nil => exact h
  | cons operation rest ih => exact ih (spans_run h operation)

end Operation

/-! ## Lives -/

/-- A person whose stats have all been started anew. -/
def Person.Fresh (person : Person) : Prop :=
  ∀ stat, person.gauges.get stat = .start (person.current stat)

theorem Person.fresh_unborn (settings : Settings) : (Person.unborn settings).Fresh := by
  intro stat
  cases stat <;> rfl

theorem Person.Fresh.allocate {person : Person} (h : person.Fresh) (stat : Stat) (value : Int) :
    (person.allocate stat value).Fresh := by
  intro stat'
  by_cases hself : stat' = stat
  · subst hself
    rw [current, gauge_allocate_self]
    rfl
  · rw [current, person.gauge_allocate_of_ne value hself]
    exact h stat'

/-- The stats of the person of a request have had one value each. -/
theorem Request.fresh_person (request : Request) (settings : Settings) :
    (request.person settings).Fresh := by
  rw [person, Person.setHistory_eq]
  exact request.allocate_preserves (fun _ stat _ entry _ hq => hq.allocate stat entry.2)
    (Person.fresh_unborn settings)

/-- The persons that an incident leads through, one write of a stat after another. -/
def Incident.persons (before after : Person) : Incident → List Person
  | .fire talent => before.along talent.effect after
  | .happen id event => (before.recordEvent id).along event.effect after
  | _ => [after]

/-- The persons that episodes lead through. -/
def personsOf : Person → List Episode → List Person
  | _, [] => []
  | before, episode :: rest =>
    episode.incident.persons before episode.standing.person ++
      personsOf episode.standing.person rest

/-- An incident keeps the extremes exact. -/
theorem Incident.Changes.spans {before after : Standing} {incident : Incident}
    (h : incident.Changes rules before after) {stat : Stat} {values : List Int}
    (hspans : before.person.Spans stat values) :
    after.person.Spans stat
      (values ++ (incident.persons before.person after.person).map fun q => q.current stat) := by
  cases incident with
  | turn =>
    subst h
    exact hspans.moves (before.person.moves_set stat .age _)
  | join id =>
    subst h
    exact hspans.moves (Person.moves_of_gauges rfl stat)
  | fire talent =>
    obtain ⟨-, -, -, source, rfl⟩ := h
    exact hspans.applyIfAny talent.effect source
  | happen id event =>
    obtain ⟨-, source, rfl⟩ := h
    have hrecorded : (before.person.recordEvent id).Spans stat values :=
      ⟨hspans.current, hspans.highest, hspans.lowest⟩
    exact hrecorded.applyIfAny event.effect source
  | achieve achievement =>
    subst h
    exact hspans.moves (Person.moves_of_gauges rfl stat)

/-- Episodes keep the extremes exact. -/
theorem Follows.spans {before last : Standing} {episodes : List Episode}
    (h : Follows rules before episodes last) {stat : Stat} {values : List Int}
    (hspans : before.person.Spans stat values) :
    last.person.Spans stat
      (values ++ (personsOf before.person episodes).map fun q => q.current stat) := by
  induction h generalizing values with
  | done => rwa [personsOf, List.map_nil, List.append_nil]
  | cons hchanges _ ih =>
    rw [personsOf, List.map_append, ← List.append_assoc]
    exact ih (hchanges.spans hspans)

namespace Life

variable (life : Life) (rules : Ruleset) (request : Request)

/-- The persons that a life leads through, from that of its request on. -/
def persons : List Person :=
  request.person rules.settings ::
    personsOf (request.person rules.settings) (life.chronicle rules request)

/-- The values that a stat has in a life. -/
def held (stat : Stat) : List Int :=
  (life.persons rules request).map fun q => q.current stat

end Life

/-- **The extremes of a life are exact.** -/
theorem spans_of_live (hkeyed : rules.talents.Keyed Talent.id) {request : Request}
    {source source' : Source} {life : Life}
    (hlive : live rules request source = (.ok life, source')) (stat : Stat) :
    life.closing.person.Spans stat (life.held rules request stat) :=
  (follows_of_live hkeyed hlive).spans
    (.of_start (request.fresh_person rules.settings stat))

end LifeCourse
