import LifeCourse.Proofs.Life.Ending
import LifeCourse.Proofs.Life.Happenings

/-!
# The clock of a life

Age is moved by the turn of a year, by talents when they are settled, by talents that fire, and by
every event of a chain.  Each effect brings it back between birth and the last age, so only the
years themselves can tell how the clock goes on: a year begins one after the age at which the year
before it was left (`clock_of_live`).

## What is needed of an effect

An effect either leaves the age alone or puts it where a change by its amount puts it
(`Person.Happens.age`); nothing else of the rules is looked at.  If no amount is negative, the age
is never less than it was, because the terminal age fits 32 bits and no sum is cut off below it
(`Person.Leads.clockFrom`).  If every amount is zero, the age stays (`Person.Leads.age_eq`).

Before birth the clock stands at -1, which no year and no effect can bring back.  It is therefore
treated as a first age of its own: `Person.ClockFrom rules first` bounds the clock from below by any
age, and settling keeps the bound -1 as it keeps every other one.
-/

namespace LifeCourse

variable {rules : Ruleset}

/-- A talent or an event of the ruleset has the effect. -/
def Ruleset.HasEffect (rules : Ruleset) (effect : Effect) : Prop :=
  (∃ id talent, rules.talents.find? id = some talent ∧ talent.effect = some effect) ∨
    ∃ id event, rules.events.find? id = some event ∧ event.effect = some effect

namespace Person

/-! ## What happens to the clock -/

/-- An effect that may be missing leaves the age alone, or changes it by its amount. -/
theorem age_applyIfAny (person : Person) (effect : Option Effect) (source : Source) :
    (person.applyIfAny effect source).1.current .age = person.current .age ∨
      ∃ e, effect = some e ∧ (person.applyIfAny effect source).1.current .age =
        person.changed .age (e.amounts.get .age) ∧ e.amounts.get .age ≠ 0 := by
  cases effect with
  | none => exact .inl rfl
  | some effect =>
    have hage : (person.apply effect source).1.current .age =
        (person.change .age (effect.amounts.get .age)).current .age :=
      person.current_apply_of_not_mem effect source (by decide)
    rw [current_change] at hage
    by_cases hzero : effect.amounts.get .age = 0
    · rw [if_pos hzero] at hage
      exact .inl hage
    · rw [if_neg hzero] at hage
      exact .inr ⟨effect, rfl, hage, hzero⟩

/-- **What a happening does to the clock.** -/
theorem Happens.age {p q : Person} (h : Happens rules p q) :
    q.terminalAge = p.terminalAge ∧
      (q.current .age = p.current .age ∨
        ∃ effect, rules.HasEffect effect ∧ effect.amounts.get .age ≠ 0 ∧
          q.current .age = p.changed .age (effect.amounts.get .age)) := by
  cases h with
  | join => exact ⟨rfl, .inl rfl⟩
  | @fire id talent hfind _ source =>
    refine ⟨(p.keeps_applyIfAny talent.effect source).terminalAge, ?_⟩
    rcases p.age_applyIfAny talent.effect source with hage | ⟨effect, heffect, hage, hne⟩
    · exact .inl hage
    · exact .inr ⟨effect, .inl ⟨id, talent, hfind, heffect⟩, hne, hage⟩
  | @happen id event hfind _ source =>
    have hkeeps := (p.recordEvent id).keeps_applyIfAny event.effect source
    refine ⟨hkeeps.terminalAge, ?_⟩
    rcases (p.recordEvent id).age_applyIfAny event.effect source with
      hage | ⟨effect, heffect, hage, hne⟩
    · exact .inl hage
    · exact .inr ⟨effect, .inr ⟨id, event, hfind, heffect⟩, hne, hage⟩

/-- The clock stands at a first age or later, and not past the terminal age of the rules. -/
structure ClockFrom (rules : Ruleset) (first : Int) (person : Person) : Prop where
  terminalAge : person.terminalAge = rules.settings.terminalAge
  first_le : first ≤ person.current .age
  le_last : person.current .age ≤ rules.settings.terminalAge

/-- A happening keeps the clock from going back before birth, and from going back at all if no
amount of age is negative. -/
theorem Happens.clockFrom (hvalid : rules.settings.Valid) {first : Int}
    (hfirst : first ≤ 0 ∨ ∀ effect, rules.HasEffect effect → 0 ≤ effect.amounts.get .age)
    {p q : Person} (h : Happens rules p q) (hp : p.ClockFrom rules first) :
    q.ClockFrom rules first := by
  obtain ⟨hterminal, hage⟩ := h.age
  obtain ⟨hp, hge, hle⟩ := hp
  rcases hage with hage | ⟨effect, heffect, -, hage⟩
  · exact ⟨hterminal.trans hp, by rw [hage]; exact hge, by rw [hage]; exact hle⟩
  · have hlast := hvalid.terminalAge
    have hbound := rules.settings.terminalAge_le
    have hvalue : q.current .age = max 0 (min (Range.saturate
        (p.current .age + effect.amounts.get .age)) rules.settings.terminalAge) := by
      rw [hage, changed, if_pos rfl, withinLife, hp]
    refine ⟨hterminal.trans hp, ?_, by omega⟩
    rcases hfirst with hfirst | hforward
    · omega
    · have hamount := hforward effect heffect
      have hsum : p.current .age ≤ Range.saturate
          (p.current .age + effect.amounts.get .age) := by
        unfold Range.saturate Range.greatest at *
        omega
      omega

theorem Leads.clockFrom (hvalid : rules.settings.Valid) {first : Int}
    (hfirst : first ≤ 0 ∨ ∀ effect, rules.HasEffect effect → 0 ≤ effect.amounts.get .age)
    {p q : Person} (h : Leads rules p q) (hp : p.ClockFrom rules first) :
    q.ClockFrom rules first := by
  induction h with
  | refl => exact hp
  | tail _ hstep ih => exact hstep.clockFrom hvalid hfirst ih

/-- If no effect moves the clock, it stays. -/
theorem Leads.age_eq (hstill : ∀ effect, rules.HasEffect effect → effect.amounts.get .age = 0)
    {p q : Person} (h : Leads rules p q) : q.current .age = p.current .age := by
  induction h with
  | refl => rfl
  | tail _ hstep ih =>
    rcases hstep.age.2 with hage | ⟨effect, heffect, hne, -⟩
    · exact hage.trans ih
    · exact absurd (hstill effect heffect) hne

/-- When a year turns, the clock stands between birth and the last age. -/
theorem clockFrom_nextYear (hvalid : rules.settings.Valid) {person : Person}
    (hterminal : person.terminalAge = rules.settings.terminalAge) :
    person.nextYear.ClockFrom rules 0 := by
  have hlast := hvalid.terminalAge
  refine ⟨person.keeps_nextYear.terminalAge.trans hterminal, ?_, ?_⟩
  · rw [current_nextYear]
    exact withinLife_nonneg _ _
  · rw [current_nextYear, ← hterminal]
    exact withinLife_le (by omega) _

end Person

/-! ## A year -/

/-- What a year tells of the clock: where it stood in the morning and in the evening, and that the
achievements of the year did not move it. -/
structure Year.OnClock (rules : Ruleset) (year : Year) : Prop where
  born : 0 ≤ year.age
  age_le : year.age ≤ rules.settings.terminalAge
  clock : year.person.ClockFrom rules 0
  after : year.standing.person.terminalAge = rules.settings.terminalAge ∧
    year.standing.person.current .age = year.person.current .age
  before_last : year.isEnd = false → year.person.current .age < rules.settings.terminalAge
  forward : (∀ effect, rules.HasEffect effect → 0 ≤ effect.amounts.get .age) →
    year.age ≤ year.person.current .age
  still : (∀ effect, rules.HasEffect effect → effect.amounts.get .age = 0) →
    year.person.current .age = year.age

/-- **Every year is on the clock.** -/
theorem onClock_of_liveYear (hvalid : rules.settings.Valid) {isLast : Bool} {before : Standing}
    {source source' : Source} {year : Year}
    (h : liveYear rules isLast before source = (year, source'))
    (hterminal : before.person.terminalAge = rules.settings.terminalAge) :
    year.OnClock rules := by
  obtain ⟨hleads, achievements, hstanding⟩ := leads_of_liveYear h
  have hage : year.age = before.person.nextYear.current .age := by
    obtain ⟨rfl, -⟩ := Prod.mk.inj h
    rfl
  have hend : year.isEnd = (endsLife year.chain || year.person.isDead ||
      year.person.atTerminalAge || isLast) := by
    obtain ⟨rfl, -⟩ := Prod.mk.inj h
    rfl
  have hturned := Person.clockFrom_nextYear hvalid hterminal
  have hclock := hleads.clockFrom hvalid (.inl (Int.le_refl 0)) hturned
  refine ⟨?_, ?_, hclock, ?_, fun hnot => ?_, fun hforward => ?_, fun hstill => ?_⟩
  · rw [hage]
    exact hturned.first_le
  · rw [hage]
    exact hturned.le_last
  · rw [hstanding]
    exact ⟨hclock.terminalAge, rfl⟩
  · rw [hend, Bool.or_eq_false_iff, Bool.or_eq_false_iff, Person.atTerminalAge,
      decide_eq_false_iff_not, hclock.terminalAge] at hnot
    exact Int.not_le.mp hnot.1.2
  · rw [hage]
    exact (hleads.clockFrom hvalid (.inr hforward)
      ⟨hturned.terminalAge, Int.le_refl _, hturned.le_last⟩).first_le
  · rw [hage]
    exact hleads.age_eq hstill

/-! ## The years of a life -/

section Years

variable {standing : Standing} {source source' : Source} {years : List Year}

theorem Goes.onClock (hvalid : rules.settings.Valid)
    (h : Goes rules 0 standing source years source')
    (hterminal : standing.person.terminalAge = rules.settings.terminalAge) :
    ∀ year ∈ years, year.OnClock rules := by
  have hyear : ∀ {isLast before source year source'},
      liveYear rules isLast before source = (year, source') →
        before.person.terminalAge = rules.settings.terminalAge →
        year.OnClock rules ∧ year.standing.person.terminalAge = rules.settings.terminalAge := by
    intro isLast before source year source' hlive hbefore
    have hclock := onClock_of_liveYear hvalid hlive hbefore
    exact ⟨hclock, hclock.after.1⟩
  exact h.forall_of_liveYear hyear hterminal

/-- **A year begins one after the age at which the year before it was left.** -/
theorem Goes.age_succ (h : Goes rules 0 standing source years source')
    (hclock : ∀ year ∈ years, year.OnClock rules) (k : Nat) (hk : k + 1 < years.length) :
    years[k + 1].age = years[k].person.current .age + 1 := by
  obtain ⟨hnot, hage⟩ := List.isChain_iff_getElem.mp h.isChain k hk
  have hyear := hclock years[k] (List.getElem_mem _)
  have hlast := hyear.before_last hnot
  have hfirst := hyear.clock.first_le
  have hbound := rules.settings.terminalAge_le
  rw [hage, Person.current_nextYear, Person.withinLife, hyear.after.1, hyear.after.2]
  unfold Range.saturate Range.least
  unfold Range.greatest at *
  omega

/-- If the clock goes forward, a year's age is no less than its place. -/
theorem le_age_of_forward (hclock : ∀ year ∈ years, year.OnClock rules)
    (hsucc : ∀ k (hk : k + 1 < years.length),
      years[k + 1].age = years[k].person.current .age + 1)
    (hforward : ∀ effect, rules.HasEffect effect → 0 ≤ effect.amounts.get .age)
    (k : Nat) (hk : k < years.length) : (k : Int) ≤ years[k].age := by
  induction k with
  | zero => exact (hclock years[0] (List.getElem_mem hk)).born
  | succ k ih =>
    have hplace := ih (by omega)
    have hle := (hclock years[k] (List.getElem_mem _)).forward hforward
    have hnext := hsucc k hk
    omega

/-- There are then no more years than ages. -/
theorem length_le_of_forward (hclock : ∀ year ∈ years, year.OnClock rules)
    (hlast : 0 ≤ rules.settings.terminalAge)
    (hplace : ∀ k (hk : k < years.length), (k : Int) ≤ years[k].age) :
    (years.length : Int) ≤ rules.settings.terminalAge + 1 := by
  rcases Nat.eq_zero_or_pos years.length with hnone | hsome
  · omega
  · have hle := hplace (years.length - 1) (by omega)
    have hage := (hclock years[years.length - 1] (List.getElem_mem _)).age_le
    omega

/-- No life then ends for want of years. -/
theorem Goes.isEnd_of_forward (h : Goes rules 0 standing source years source')
    (hclock : ∀ year ∈ years, year.OnClock rules)
    (hlength : (years.length : Int) ≤ rules.settings.terminalAge + 1)
    {k : Nat} {year : Year} (hk : years[k]? = some year) :
    (k : Int) + 1 < 2 * (rules.settings.terminalAge + 1) ∧
      (year.isEnd = true →
        year.HasTerminalEvent rules ∨ year.person.current .life ≤ 0 ∨
          rules.settings.terminalAge ≤ year.person.current .age) := by
  obtain ⟨hlt, -⟩ := List.getElem?_eq_some_iff.mp hk
  have hiff := h.isEnd_iff (fun year hmem => (hclock year hmem).clock.terminalAge) hk
  have hmax : ¬rules.settings.maxYears ≤ k + 1 := by
    rw [Settings.maxYears]
    omega
  refine ⟨by omega, fun hend => ?_⟩
  rcases hiff.mp hend with hevent | hdead | hlast | hyears
  · exact .inl hevent
  · exact .inr (.inl hdead)
  · exact .inr (.inr hlast)
  · exact absurd hyears hmax

/-- If the clock goes forward, ages increase strictly. -/
theorem pairwise_age_of_forward (hclock : ∀ year ∈ years, year.OnClock rules)
    (hsucc : ∀ k (hk : k + 1 < years.length),
      years[k + 1].age = years[k].person.current .age + 1)
    (hforward : ∀ effect, rules.HasEffect effect → 0 ≤ effect.amounts.get .age) :
    (years.map Year.age).Pairwise (· < ·) := by
  refine List.isChain_iff_pairwise.mp (List.isChain_iff_getElem.mpr fun k hk => ?_)
  rw [List.length_map] at hk
  rw [List.getElem_map, List.getElem_map, hsucc k hk]
  have hle := (hclock years[k] (List.getElem_mem _)).forward hforward
  omega

/-- If the clock is moved by the turn of years alone, a year's age is its place. -/
theorem age_eq_of_still (hclock : ∀ year ∈ years, year.OnClock rules)
    (hsucc : ∀ k (hk : k + 1 < years.length),
      years[k + 1].age = years[k].person.current .age + 1)
    (hstill : ∀ effect, rules.HasEffect effect → effect.amounts.get .age = 0)
    (hfirst : ∀ h : 0 < years.length, years[0].age = 0)
    (k : Nat) (hk : k < years.length) : years[k].age = k := by
  induction k with
  | zero => exact hfirst hk
  | succ k ih =>
    have hplace := ih (by omega)
    have hsame := (hclock years[k] (List.getElem_mem _)).still hstill
    have hnext := hsucc k hk
    omega

/-- A life that begins one year before birth has birth as its first year. -/
theorem Goes.first_age (hvalid : rules.settings.Valid)
    (h : Goes rules 0 standing source years source')
    (hterminal : standing.person.terminalAge = rules.settings.terminalAge)
    (hunborn : standing.person.current .age = -1) (hsome : 0 < years.length) :
    years[0].age = 0 := by
  obtain ⟨year, rest, rfl, hage⟩ := h.exists_head
  have hlast := hvalid.terminalAge
  rw [List.getElem_cons_zero, hage, Person.current_nextYear, hunborn, Person.withinLife, hterminal]
  unfold Range.saturate Range.least Range.greatest
  omega

end Years

/-! ## Before birth -/

theorem Request.age_allocate (request : Request) (person : Person) :
    (request.allocate person).current .age = person.current .age := by
  have hallocate : ∀ (q : Person) (stat : Stat), stat ≠ .age →
      ∀ entry ∈ request.properties.entries, q.current .age = person.current .age →
        (q.allocate stat entry.2).current .age = person.current .age := by
    intro q stat hne entry _ hq
    rw [← hq]
    exact congrArg Gauge.current (q.gauge_allocate_of_ne entry.2 hne.symm)
  exact request.allocate_preserves hallocate rfl

/-- Whatever a request gives out, its person is one year before birth. -/
theorem Request.age_person (request : Request) (settings : Settings) :
    (request.person settings).current .age = -1 := by
  rw [person, Person.setHistory_eq]
  exact request.age_allocate (.unborn settings)

/-- How the clock of a life stands before its first year: somewhere from the year before birth on,
and there exactly if no effect has moved it. -/
theorem clock_of_opening (hloaded : rules.Loaded) {request : Request} {source source' : Source}
    {life : Life} (hlive : live rules request source = (.ok life, source')) :
    life.opening.person.ClockFrom rules (-1) ∧
      ((∀ effect, rules.HasEffect effect → effect.amounts.get .age = 0) →
        life.opening.person.current .age = -1) := by
  obtain ⟨source₁, hresolve, hopening, -, -⟩ := live_eq_ok hlive
  have hvalid := hloaded.coherent.settings
  have hlast := hvalid.terminalAge
  have hleads := leads_of_resolve hresolve
  have hbefore := request.age_person rules.settings
  have hunborn : (request.person rules.settings).ClockFrom rules (-1) :=
    ⟨(request.person_eq rules.settings).2, by omega, by omega⟩
  have hclock := hleads.clockFrom hvalid (.inl (by omega)) hunborn
  obtain ⟨achievements, hperson⟩ :=
    Standing.person_check rules (life.settled request.achieved) .start
  rw [hopening, hperson]
  exact ⟨⟨hclock.terminalAge, hclock.first_le, hclock.le_last⟩,
    fun hstill => (hleads.age_eq hstill).trans hbefore⟩

/-! ## The law of the clock -/

/-- **The clock of a life.**  Ages lie between birth and the last age, in the morning and in the
evening of every year, and a year begins one after the age at which the year before it was left.  If
no effect turns the clock back, ages increase strictly, so there are no more years than ages, and no
life ends for want of years.  If no effect moves the clock, the age of a year is its place. -/
theorem clock_of_live {request : Request} {source source' : Source} {life : Life}
    (hloaded : rules.Loaded) (hlive : live rules request source = (.ok life, source')) :
    (∀ entry ∈ (Session.ofLife rules life).trajectory,
      (0 ≤ entry.age ∧ entry.age ≤ rules.settings.terminalAge) ∧
      0 ≤ entry.properties.get .age ∧
      entry.properties.get .age ≤ rules.settings.terminalAge) ∧
    (∀ (k : Nat) (entry next : Entry),
      (Session.ofLife rules life).trajectory[k]? = some entry →
      (Session.ofLife rules life).trajectory[k + 1]? = some next →
      next.age = entry.properties.get .age + 1) ∧
    ((∀ effect, rules.HasEffect effect → 0 ≤ effect.amounts.get .age) →
      ((Session.ofLife rules life).trajectory.map Entry.age).Pairwise (· < ·) ∧
      ((Session.ofLife rules life).trajectory.length : Int) ≤ rules.settings.terminalAge + 1 ∧
      ∀ (k : Nat) (year : Year) (entry : Entry), life.years[k]? = some year →
        (Session.ofLife rules life).trajectory[k]? = some entry →
        (k : Int) + 1 < 2 * (rules.settings.terminalAge + 1) ∧
        (entry.isEnd = true →
          year.HasTerminalEvent rules ∨
          entry.properties.get .life ≤ 0 ∨
          rules.settings.terminalAge ≤ entry.properties.get .age)) ∧
    ((∀ effect, rules.HasEffect effect → effect.amounts.get .age = 0) →
      ∀ (k : Nat) (entry : Entry), (Session.ofLife rules life).trajectory[k]? = some entry →
        entry.age = k ∧ entry.properties.get .age = k) := by
  obtain ⟨source₁, -, -, hyears, -⟩ := live_eq_ok hlive
  obtain ⟨hopening, hunmoved⟩ := clock_of_opening hloaded hlive
  have hvalid := hloaded.coherent.settings
  have hlast := hvalid.terminalAge
  have hclock := hyears.onClock hvalid hopening.terminalAge
  have hsucc := hyears.age_succ hclock
  refine ⟨fun entry hmem => ?_, fun k entry next hentry hnext => ?_, fun hforward => ?_,
    fun hstill k entry hentry => ?_⟩
  · obtain ⟨year, hyear, rfl⟩ := List.mem_map.mp hmem
    have hyear := hclock year hyear
    rw [Entry.get_properties_ofYear]
    exact ⟨⟨hyear.born, hyear.age_le⟩, hyear.clock.first_le, hyear.clock.le_last⟩
  · obtain ⟨hk, rfl⟩ := Session.exists_year_of_getElem? hentry
    obtain ⟨hk', rfl⟩ := Session.exists_year_of_getElem? hnext
    rw [Entry.get_properties_ofYear]
    exact hsucc k hk'
  · have hplace := le_age_of_forward hclock hsucc hforward
    have hle := length_le_of_forward hclock hlast hplace
    have hages : (Session.ofLife rules life).trajectory.map Entry.age =
        life.years.map Year.age := List.map_map
    have hlength : (Session.ofLife rules life).trajectory.length = life.years.length :=
      List.length_map _
    refine ⟨?_, by rw [hlength]; exact hle, fun k year entry hyear hentry => ?_⟩
    · rw [hages]
      exact pairwise_age_of_forward hclock hsucc hforward
    · obtain ⟨hk, rfl⟩ := Session.exists_year_of_getElem? hentry
      obtain ⟨_, rfl⟩ := List.getElem?_eq_some_iff.mp hyear
      rw [Entry.get_properties_ofYear, Entry.get_properties_ofYear]
      exact hyears.isEnd_of_forward hclock hle hyear
  · obtain ⟨hk, rfl⟩ := Session.exists_year_of_getElem? hentry
    have hfirst := hyears.first_age hvalid hopening.terminalAge (hunmoved hstill)
    have hplace := age_eq_of_still hclock hsucc hstill hfirst k hk
    rw [Entry.get_properties_ofYear]
    exact ⟨hplace, ((hclock _ (List.getElem_mem hk)).still hstill).trans hplace⟩

/-! ## A clock that goes forward, and one that is not moved -/

/-- An effect that changes one stat. -/
def Effect.only (stat : Stat) (amount : Int) : Effect :=
  ⟨.set (.tabulate fun _ => 0) stat amount, 0⟩

/-- A draft of rules with one talent, which birth brings, and one event, which comes with birth;
each has an effect on one stat. -/
def growingDraft (talent event : Effect) : Draft where
  talents := [("1", { effect := some talent })]
  events := [("1", { noRandom := some true, effect := some event })]
  ages := [("0", { talents := some [1], pool := some [.pair 1 1] })]
  settings := some { Settings.standard with terminalAge := 3, terminalAge_le := by decide }

/-- The rules of the draft. -/
def growingRules (talent event : Effect) : Ruleset where
  talents := .ofList [(1, { Talent.ofName 1 "" with effect := some talent })]
  events := .ofList [(1, { Event.ofText 1 "" with noRandom := true, effect := some event })]
  ages := .ofList [(0, ⟨0, [1], [⟨1, 1⟩]⟩)]
  achievements := .empty
  rubrics := .empty
  settings := { Settings.standard with terminalAge := 3, terminalAge_le := by decide }

theorem hasEffect_growingRules_iff {talent event effect : Effect} :
    (growingRules talent event).HasEffect effect ↔ effect = talent ∨ effect = event := by
  have htalents : (growingRules talent event).talents.entries =
      [(1, { Talent.ofName 1 "" with effect := some talent })] := rfl
  have hevents : (growingRules talent event).events.entries =
      [(1, { Event.ofText 1 "" with noRandom := true, effect := some event })] := rfl
  unfold Ruleset.HasEffect
  simp only [Table.find?_eq_some_iff, htalents, hevents, List.mem_singleton, Prod.mk.injEq]
  constructor
  · rintro (⟨_, _, ⟨rfl, rfl⟩, h⟩ | ⟨_, _, ⟨rfl, rfl⟩, h⟩)
    · exact .inl (Option.some.inj h).symm
    · exact .inr (Option.some.inj h).symm
  · rintro (rfl | rfl)
    · exact .inl ⟨_, _, ⟨rfl, rfl⟩, rfl⟩
    · exact .inr ⟨_, _, ⟨rfl, rfl⟩, rfl⟩

/-- A talent and an event of birth that each bring the clock forward make a life of two years; if
they have their effects on other stats, there are four, whose ages are their places. -/
theorem clock_of_live_growing :
    (growingDraft (.only .age 1) (.only .age 1)).build =
      .ok (growingRules (.only .age 1) (.only .age 1)) ∧
    (∃ life source', live (growingRules (.only .age 1) (.only .age 1)) .empty (.seeded 0) =
        (.ok life, source') ∧
      (Session.ofLife (growingRules (.only .age 1) (.only .age 1)) life).trajectory.map Entry.age =
        [0, 3] ∧
      ((Session.ofLife (growingRules (.only .age 1) (.only .age 1)) life).trajectory.map
        Entry.age).Pairwise (· < ·)) ∧
    (growingDraft (.only .charm 1) (.only .money 1)).build =
      .ok (growingRules (.only .charm 1) (.only .money 1)) ∧
    ∃ life source', live (growingRules (.only .charm 1) (.only .money 1)) .empty (.seeded 0) =
        (.ok life, source') ∧
      (Session.ofLife (growingRules (.only .charm 1) (.only .money 1)) life).trajectory.length =
        4 ∧
      ∀ (k : Nat) (entry : Entry),
        (Session.ofLife (growingRules (.only .charm 1) (.only .money 1)) life).trajectory[k]? =
          some entry → entry.age = k := by
  have hforth : (growingDraft (.only .age 1) (.only .age 1)).build =
      .ok (growingRules (.only .age 1) (.only .age 1)) := rfl
  have hcalm : (growingDraft (.only .charm 1) (.only .money 1)).build =
      .ok (growingRules (.only .charm 1) (.only .money 1)) := rfl
  refine ⟨hforth, ?_, hcalm, ?_⟩
  · have hlive : ∃ life source',
        live (growingRules (.only .age 1) (.only .age 1)) .empty (.seeded 0) =
          (.ok life, source') ∧
        (Session.ofLife (growingRules (.only .age 1) (.only .age 1)) life).trajectory.map
          Entry.age = [0, 3] := ⟨_, _, rfl, rfl⟩
    obtain ⟨life, source', hlive, hages⟩ := hlive
    obtain ⟨-, -, hforward, -⟩ := clock_of_live (.build hforth) hlive
    refine ⟨life, source', hlive, hages, (hforward fun effect heffect => ?_).1⟩
    rcases hasEffect_growingRules_iff.mp heffect with rfl | rfl
    · decide
    · decide
  · have hlive : ∃ life source',
        live (growingRules (.only .charm 1) (.only .money 1)) .empty (.seeded 0) =
          (.ok life, source') ∧
        (Session.ofLife (growingRules (.only .charm 1) (.only .money 1)) life).trajectory.length =
          4 := ⟨_, _, rfl, rfl⟩
    obtain ⟨life, source', hlive, hlength⟩ := hlive
    obtain ⟨-, -, -, hstill⟩ := clock_of_live (.build hcalm) hlive
    refine ⟨life, source', hlive, hlength, fun k entry hentry => (hstill ?_ k entry hentry).1⟩
    intro effect heffect
    rcases hasEffect_growingRules_iff.mp heffect with rfl | rfl
    · decide
    · decide

end LifeCourse
