import LifeCourse.Proofs.Life.Frame
import Mathlib.Logic.ExistsUnique

/-!
# Where an effect lands

An effect has an amount for each stat and one that falls on a core stat which is drawn.  What it does
to one stat does not depend on the other stats: each has its own change (`Person.gauge_changeAll`),
and the one that is drawn has a second change after it.  So an effect is described by the values that
it brings a stat to, one after another (`Person.way`), of which there are at most two, and the gauge
of the stat reaches these (`Person.gauge_apply`).

The stat is drawn before anything is known of the person or of the effect.  `apply_lands` therefore
says for a source which stat that is, and that it is no other, and then what every effect does to
every person.
-/

namespace LifeCourse
namespace Person

/-- The value to which its own amount brings a stat: the sum, cut off at the ends of the range.  An
amount of age that is not zero also brings the age within the life. -/
def brought (person : Person) (amounts : PerStat Int) (stat : Stat) : Int :=
  let sum := Range.saturate (person.current stat + amounts.get stat)
  if stat = .age then
    if amounts.get .age = 0 then person.current .age else person.withinLife sum
  else sum

/-- The values to which an effect brings a stat, one after another, if its random amount falls on
`drawn`.  An amount of zero brings it nowhere. -/
def way (person : Person) (effect : Effect) (drawn : Option Stat) (stat : Stat) : List Int :=
  (if effect.amounts.get stat = 0 then [] else [person.brought effect.amounts stat]) ++
    if drawn = some stat then
      [Range.saturate (person.brought effect.amounts stat + effect.random)]
    else []

/-- The stat on which the random amount of an effect falls, if it has one. -/
def drawnBy (effect : Effect) (source : Source) : Option Stat :=
  if effect.random = 0 then none else some (drawCore source).1

/-- A stat that is drawn is a core stat. -/
theorem mem_core_of_drawnBy {effect : Effect} {source : Source} {stat : Stat}
    (h : drawnBy effect source = some stat) : stat ∈ Stat.core := by
  unfold drawnBy at h
  split at h
  · cases h
  · rw [← Option.some.inj h]
    exact drawCore_mem source

theorem ne_age_of_mem_core {stat : Stat} (h : stat ∈ Stat.core) : stat ≠ .age := by
  rintro rfl
  exact absurd h (by decide)

/-! ## Gauges -/

/-- A change makes a gauge reach one value, or none. -/
theorem gauge_change (person : Person) (stat : Stat) (amount : Int) :
    (person.change stat amount).gauges.get stat =
      (if amount = 0 then [] else [person.changed stat amount]).foldl Gauge.reach
        (person.gauges.get stat) := by
  unfold change
  split
  · rfl
  · exact gauge_set_self person stat _

/-- The change of a stat by its own amount brings it where it should be. -/
theorem changed_eq_brought {person : Person} {amounts : PerStat Int} {stat : Stat}
    (h : amounts.get stat ≠ 0) :
    person.changed stat (amounts.get stat) = person.brought amounts stat := by
  unfold changed brought
  by_cases hage : stat = .age
  · subst hage
    rw [if_pos rfl, if_pos rfl, if_neg h]
  · rw [if_neg hage, if_neg hage]

/-- The changes of all stats make each gauge reach one value, or none. -/
theorem gauge_changeAll_eq_foldl (person : Person) (amounts : PerStat Int) (stat : Stat) :
    (person.changeAll amounts).gauges.get stat =
      (if amounts.get stat = 0 then [] else [person.brought amounts stat]).foldl Gauge.reach
        (person.gauges.get stat) := by
  rw [gauge_changeAll, gauge_change]
  split
  · rfl
  · rename_i hamount
    rw [changed_eq_brought hamount]

/-- The changes of all stats bring each where it should be. -/
theorem current_changeAll {person : Person} (amounts : PerStat Int) {stat : Stat}
    (hrange : Range.InRange (person.current stat)) :
    (person.changeAll amounts).current stat = person.brought amounts stat := by
  rw [current, gauge_changeAll_eq_foldl]
  by_cases hzero : amounts.get stat = 0
  · rw [if_pos hzero, brought]
    by_cases hage : stat = .age
    · subst hage
      rw [if_pos rfl, if_pos hzero]
      rfl
    · rw [if_neg hage, hzero, Int.add_zero, Range.saturate_eq_self hrange]
      rfl
  · rw [if_neg hzero]
    rfl

/-- **The gauge of a stat reaches the values to which the effect brings the stat.** -/
theorem gauge_apply {person : Person} (effect : Effect) (source : Source) {stat : Stat}
    (hrange : Range.InRange (person.current stat)) :
    (person.apply effect source).1.gauges.get stat =
      (person.way effect (drawnBy effect source) stat).foldl Gauge.reach
        (person.gauges.get stat) := by
  rw [way, List.foldl_append, ← gauge_changeAll_eq_foldl]
  by_cases hrandom : effect.random = 0
  · rw [drawnBy, apply, if_pos hrandom, if_pos hrandom, if_neg (by simp)]
    rfl
  · have happly : (person.apply effect source).1 =
        (person.changeAll effect.amounts).change (drawCore source).1 effect.random := by
      rw [apply, if_neg hrandom]
    rw [happly]
    by_cases hdrawn : drawnBy effect source = some stat
    · have hstat : (drawCore source).1 = stat := by
        rw [drawnBy, if_neg hrandom] at hdrawn
        exact Option.some.inj hdrawn
      rw [if_pos hdrawn, hstat, gauge_change, if_neg hrandom, changed,
        if_neg (ne_age_of_mem_core (mem_core_of_drawnBy hdrawn)),
        current_changeAll effect.amounts hrange]
    · have hstat : stat ≠ (drawCore source).1 := by
        rintro rfl
        exact hdrawn (if_neg hrandom)
      rw [if_neg hdrawn, gauge_change_of_ne _ _ hstat]
      rfl

/-- The last value to which an effect brings a stat is its value. -/
theorem current_apply {person : Person} (effect : Effect) (source : Source) {stat : Stat}
    (hrange : Range.InRange (person.current stat)) :
    (person.apply effect source).1.current stat =
      if drawnBy effect source = some stat then
        Range.saturate (person.brought effect.amounts stat + effect.random)
      else person.brought effect.amounts stat := by
  rw [current, gauge_apply effect source hrange, way, List.foldl_append,
    ← gauge_changeAll_eq_foldl]
  split
  · rfl
  · exact current_changeAll effect.amounts hrange

/-! ## Effects -/

/-- What an effect makes of a person, if its random amount falls on `drawn`.  The random amount is
added to a sum that has been cut off already, and what comes of it is cut off again. -/
structure Lands (person : Person) (effect : Effect) (drawn : Option Stat) (after : Person) :
    Prop where
  core : ∀ stat ∈ Stat.core, after.current stat =
    if drawn = some stat then
      Range.saturate
        (Range.saturate (person.current stat + effect.amounts.get stat) + effect.random)
    else Range.saturate (person.current stat + effect.amounts.get stat)
  life : after.current .life = Range.saturate (person.current .life + effect.amounts.get .life)
  age : after.current .age =
    if effect.amounts.get .age = 0 then person.current .age
    else max 0 (min (Range.saturate (person.current .age + effect.amounts.get .age))
      person.terminalAge)
  highest : ∀ stat, after.highest stat =
    (person.way effect drawn stat).foldl max (person.highest stat)
  lowest : ∀ stat, after.lowest stat = (person.way effect drawn stat).foldl min (person.lowest stat)
  keeps : person.Keeps after

/-- **An effect lands where it is drawn.** -/
theorem lands_apply {person : Person} (hrange : ∀ stat, Range.InRange (person.current stat))
    (effect : Effect) (source : Source) :
    person.Lands effect (drawnBy effect source) (person.apply effect source).1 where
  core := fun stat hmem => by
    rw [current_apply effect source (hrange stat), brought, if_neg (ne_age_of_mem_core hmem)]
  life := by
    have hdrawn : drawnBy effect source ≠ some .life := fun h =>
      absurd (mem_core_of_drawnBy h) (by decide)
    rw [current_apply effect source (hrange .life), if_neg hdrawn, brought, if_neg (by decide)]
  age := by
    have hdrawn : drawnBy effect source ≠ some .age := fun h =>
      absurd (mem_core_of_drawnBy h) (by decide)
    rw [current_apply effect source (hrange .age), if_neg hdrawn, brought, if_pos rfl]
    rfl
  highest := fun stat => by
    rw [highest, gauge_apply effect source (hrange stat), Gauge.highest_foldl_reach, highest]
  lowest := fun stat => by
    rw [lowest, gauge_apply effect source (hrange stat), Gauge.lowest_foldl_reach, lowest]
  keeps := person.keeps_applyIfAny (some effect) source

/-- The effect that has a random amount of one, and nothing else. -/
def luck : Effect :=
  ⟨.tabulate fun _ => 0, 1⟩

theorem inRange_unborn (stat : Stat) : Range.InRange ((unborn .standard).current stat) := by
  cases stat <;> decide

/-- Where luck falls on an unborn person, it falls on the stat that is drawn. -/
theorem eq_drawCore_of_lands {source : Source} {drawn : Stat} (hmem : drawn ∈ Stat.core)
    (h : (unborn .standard).Lands luck (some drawn) ((unborn .standard).apply luck source).1) :
    drawn = (drawCore source).1 := by
  have hdrawn : drawnBy luck source = some (drawCore source).1 := if_neg (by decide)
  have hlands := lands_apply inRange_unborn luck source
  by_cases hsame : drawn = (drawCore source).1
  · exact hsame
  · have hvalue := (h.core drawn hmem).symm.trans (hlands.core drawn hmem)
    rw [if_pos rfl, hdrawn, if_neg fun heq => hsame (Option.some.inj heq).symm] at hvalue
    cases drawn <;> exact absurd hvalue (by decide)

/-- **Effects land where they should.**  For each source there is one core stat, and no other, on
which the random amount of every effect on every person falls.  An effect without a random amount
draws nothing. -/
theorem apply_lands (source : Source) :
    (∃! drawn, drawn ∈ Stat.core ∧ ∀ (person : Person) (effect : Effect),
      (∀ stat, Range.InRange (person.current stat)) → effect.random ≠ 0 →
        person.Lands effect (some drawn) (person.apply effect source).1) ∧
    ∀ (person : Person) (effect : Effect), (∀ stat, Range.InRange (person.current stat)) →
      effect.random = 0 →
        person.Lands effect none (person.apply effect source).1 ∧
          (person.apply effect source).2 = source := by
  refine ⟨⟨(drawCore source).1, ⟨drawCore_mem source, ?_⟩, ?_⟩, ?_⟩
  · intro person effect hrange hrandom
    have hlands := lands_apply hrange effect source
    rwa [drawnBy, if_neg hrandom] at hlands
  · rintro drawn ⟨hmem, hlands⟩
    exact eq_drawCore_of_lands hmem (hlands _ luck inRange_unborn (by decide))
  · intro person effect hrange hrandom
    have hlands := lands_apply hrange effect source
    rw [drawnBy, if_pos hrandom] at hlands
    refine ⟨hlands, ?_⟩
    rw [apply, if_pos hrandom]

/-- A source whose first word draws charm. -/
def charmSource : Source :=
  ⟨fun _ => 0, 0⟩

/-- A person one year before birth who has as much charm as there may be. -/
def charmer : Person :=
  (unborn .standard).allocate .charm 2147483647

/-- More charm is added than fits, and then some is taken away at random: what did not fit is not
there to be taken away.  Age goes back from before birth to birth, and nobody's life is touched. -/
theorem apply_lands_charmer :
    (∃ drawn ∈ Stat.core, charmer.Lands ⟨⟨5, 0, 0, 0, 0, 0, -5⟩, -3⟩ (some drawn)
      (charmer.apply ⟨⟨5, 0, 0, 0, 0, 0, -5⟩, -3⟩ charmSource).1) ∧
    charmer.Lands ⟨⟨5, 0, 0, 0, 0, 0, -5⟩, 0⟩ none
      (charmer.apply ⟨⟨5, 0, 0, 0, 0, 0, -5⟩, 0⟩ charmSource).1 ∧
    (charmer.apply ⟨⟨5, 0, 0, 0, 0, 0, -5⟩, -3⟩ charmSource).1.snapshot =
      ⟨2147483644, 0, 0, 0, 5, 1, 0⟩ := by
  obtain ⟨⟨drawn, ⟨hmem, hlands⟩, -⟩, hplain⟩ := apply_lands charmSource
  have hrange : ∀ stat, Range.InRange (charmer.current stat) := by
    intro stat
    cases stat <;> decide
  exact ⟨⟨drawn, hmem, hlands _ _ hrange (by decide)⟩, (hplain _ _ hrange rfl).1, by decide⟩

end Person
end LifeCourse
