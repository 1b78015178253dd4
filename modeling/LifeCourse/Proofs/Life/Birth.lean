import LifeCourse.Proofs.Life.Clock

/-!
# The year of birth

Before the first year the clock stands at -1, outside the ages to which an effect brings it back.
So an effect on age that comes while the talents are settled does not just add its amount: whatever
the amount, the clock stands at birth or later afterwards, and the turn of the first year leads past
birth.  A talent that turns the clock back has this consequence, too.

The clock is followed here under rules whose talents never bring it forward.  Settling a survivor
then leaves it where it stands or puts it at birth, by whether the settling sets it back
(`age_settle`), and one induction over the survivors gives the age with which the first year begins.
Every later year begins at 1 or above, because it begins one after an age that is not negative.
Birth is therefore visited in the first year or not at all (`birth_of_live`).
-/

namespace LifeCourse

variable {rules : Ruleset}

/-- No talent brings the clock forward. -/
def Ruleset.NoneForward (rules : Ruleset) : Prop :=
  ∀ talent ∈ rules.talents.values, ∀ effect, talent.effect = some effect →
    effect.amounts.get .age ≤ 0

/-- Whether the effect turns the clock back. -/
def Effect.turnsBack (effect : Effect) : Bool :=
  effect.amounts.get .age < 0

/-- Whether the talent that joins fires, and turns the clock back. -/
def Settling.setsBack (settling : Settling) : Bool :=
  settling.fired && settling.target.effect.any Effect.turnsBack

/-- Whether a talent turns the clock back while the talents are settled. -/
def Life.setBack (life : Life) : Bool :=
  life.resolution.settlings.any Settling.setsBack

/-! ## Settling -/

/-- The clock stands one year before birth, or at birth. -/
structure Person.Newborn (person : Person) : Prop where
  terminalAge : 0 ≤ person.terminalAge
  age : person.current .age = -1 ∨ person.current .age = 0

namespace Person.Newborn

variable {person : Person}

/-- To change an age that is not past birth by a negative amount leads to birth. -/
theorem changed_eq (h : person.Newborn) {amount : Int} (hback : amount < 0) :
    person.changed .age amount = 0 := by
  obtain ⟨hlast, hage⟩ := h
  rw [changed, if_pos rfl, withinLife]
  unfold Range.saturate Range.least Range.greatest
  omega

/-- What an effect that does not bring the clock forward makes of it. -/
theorem age_applyIfAny (h : person.Newborn) {effect : Option Effect}
    (hle : ∀ e, effect = some e → e.amounts.get .age ≤ 0) (source : Source) :
    (person.applyIfAny effect source).1.current .age =
      if effect.any Effect.turnsBack then 0 else person.current .age := by
  cases effect with
  | none => rfl
  | some effect =>
    have hage : (person.apply effect source).1.current .age =
        (person.change .age (effect.amounts.get .age)).current .age :=
      person.current_apply_of_not_mem effect source (by decide)
    rw [applyIfAny, hage, current_change, Option.any_some, Effect.turnsBack]
    have hle := hle effect rfl
    by_cases hback : effect.amounts.get .age < 0
    · rw [if_neg (by omega), if_pos (by simpa using hback), h.changed_eq hback]
    · rw [if_pos (by omega), if_neg (by simpa using hback)]

end Person.Newborn

/-- **To settle a survivor leaves the clock alone, or puts it at birth.** -/
theorem age_settle (hnone : rules.NoneForward) {survivor : Talent}
    (hsurvivor : survivor ∈ rules.talents.values) {state state' : SettlingState}
    {settling : Settling} (h : settle rules survivor state = (settling, state'))
    (hstate : state.person.Newborn) :
    state'.person.current .age = if settling.setsBack then 0 else state.person.current .age := by
  rw [Settling.setsBack]
  obtain ⟨-, ⟨hfired, -, hperson⟩ | ⟨hfired, -, -, source, hperson⟩⟩ := settle_cases h
  · rw [hfired, hperson]
    rfl
  · have hjoined : (state.person.addTalent settling.target.id).Newborn :=
      ⟨hstate.terminalAge, hstate.age⟩
    rw [hfired, hperson, Bool.true_and]
    exact hjoined.age_applyIfAny (hnone _ (target_mem_values hsurvivor h)) source

/-- Settling the survivors leaves the clock one year before birth, or puts it at birth. -/
theorem age_settleEach (hnone : rules.NoneForward) {coming : List Talent}
    (hcoming : ∀ talent ∈ coming, talent ∈ rules.talents.values) (state : SettlingState)
    (hstate : state.person.Newborn) :
    (settleEach rules coming state).2.person.current .age =
      if (settleEach rules coming state).1.any Settling.setsBack then 0
      else state.person.current .age := by
  induction coming generalizing state with
  | nil => rfl
  | cons survivor rest ih =>
    obtain ⟨hsurvivor, hrest⟩ := List.forall_mem_cons.mp hcoming
    rcases hsettle : settle rules survivor state with ⟨settling, state'⟩
    have hage := age_settle hnone hsurvivor hsettle hstate
    obtain ⟨-, -, -, hkeeps⟩ := settle_eq hsettle
    have hnewborn : state'.person.Newborn := by
      refine ⟨?_, ?_⟩
      · rw [hkeeps.terminalAge]
        exact hstate.terminalAge
      · rw [hage]
        split
        · exact .inr rfl
        · exact hstate.age
    rw [settleEach_cons, hsettle, List.any_cons, ih hrest state' hnewborn, hage]
    cases settling.setsBack with
    | true => rw [Bool.true_or, if_pos rfl, ite_self]
    | false => rw [Bool.false_or, if_neg Bool.false_ne_true]

/-- The age in which a life opens, if no talent brings the clock forward. -/
theorem age_of_opening (hloaded : rules.Loaded) (hnone : rules.NoneForward) {request : Request}
    {source source' : Source} {life : Life}
    (hlive : live rules request source = (.ok life, source')) :
    life.opening.person.current .age = if life.setBack then 0 else -1 := by
  obtain ⟨source₁, hresolve, hopening, -, -⟩ := live_eq_ok hlive
  obtain ⟨selection, settlings, state, hselection, hsettle, hresolution⟩ := resolve_eq_ok hresolve
  have hunborn := request.age_person rules.settings
  have hnewborn : (request.person rules.settings).Newborn := by
    refine ⟨?_, .inl hunborn⟩
    rw [(request.person_eq rules.settings).2]
    exact hloaded.coherent.settings.terminalAge
  have hage := age_settleEach hnone (mem_values_of_mem_survivors hselection)
    ⟨(survivors selection).map Talent.id, .empty, request.person rules.settings, source⟩ hnewborn
  rw [hsettle, hunborn] at hage
  obtain ⟨achievements, hperson⟩ :=
    Standing.person_check rules (life.settled request.achieved) .start
  rw [hopening, hperson, Life.setBack, Life.settled, hresolution]
  exact hage

/-! ## The first year -/

/-- Whether birth is passed over: the clock is set to birth before the first year, and there is an
age to go on to. -/
def Life.skipsBirth (life : Life) (settings : Settings) : Bool :=
  life.setBack && decide (0 < settings.terminalAge)

/-- The first year begins at birth, unless birth is passed over. -/
theorem Goes.age_head (hvalid : rules.settings.Valid) {life : Life} {lived : Nat}
    {source source' : Source} {years : List Year}
    (h : Goes rules lived life.opening source years source')
    (hterminal : life.opening.person.terminalAge = rules.settings.terminalAge)
    (hopening : life.opening.person.current .age = if life.setBack then 0 else -1) :
    ∃ year rest, years = year :: rest ∧
      year.age = if life.skipsBirth rules.settings then 1 else 0 := by
  obtain ⟨year, rest, rfl, hage⟩ := h.exists_head
  refine ⟨year, rest, rfl, ?_⟩
  have hlast := hvalid.terminalAge
  rw [hage, Person.current_nextYear, Person.withinLife, hterminal, hopening, Life.skipsBirth]
  unfold Range.saturate Range.least Range.greatest
  cases life.setBack with
  | true =>
    rw [if_pos rfl, Bool.true_and]
    split
    · rename_i hmore
      have hmore : 0 < rules.settings.terminalAge := of_decide_eq_true hmore
      omega
    · rename_i hmore
      have hmore : ¬0 < rules.settings.terminalAge := fun h => hmore (decide_eq_true h)
      omega
  | false =>
    rw [Bool.false_and, if_neg Bool.false_ne_true, if_neg Bool.false_ne_true]
    omega

/-- No later year is the year of birth. -/
theorem one_le_age_of_mem_rest {first : Year} {rest : List Year}
    (hclock : ∀ year ∈ first :: rest, year.OnClock rules)
    (hsucc : ∀ k (hk : k + 1 < (first :: rest).length),
      (first :: rest)[k + 1].age = (first :: rest)[k].person.current .age + 1) :
    ∀ year ∈ rest, 1 ≤ year.age := by
  intro year hmem
  obtain ⟨k, hk, rfl⟩ := List.getElem_of_mem hmem
  have hage := hsucc k (Nat.succ_lt_succ hk)
  have hbefore := (hclock _ (List.getElem_mem (Nat.lt_succ_of_lt hk))).clock.first_le
  rw [List.getElem_cons_succ] at hage
  omega

/-- **The year of birth.**  Under rules whose talents never bring the clock forward, the first year
is the year of birth, unless a talent that fires when the talents are settled turns the clock back
and the life may have more ages than one; then it is the year after.  Birth is visited exactly if the
first year is the year of birth. -/
theorem birth_of_live {request : Request} {source source' : Source} {life : Life}
    (hloaded : rules.Loaded) (hnone : rules.NoneForward)
    (hlive : live rules request source = (.ok life, source')) :
    (∃ first rest, (Session.ofLife rules life).trajectory = first :: rest ∧
      first.age = if life.skipsBirth rules.settings then 1 else 0) ∧
    ((∃ entry ∈ (Session.ofLife rules life).trajectory, entry.age = 0) ↔
      life.skipsBirth rules.settings = false) := by
  obtain ⟨source₁, -, -, hyears, -⟩ := live_eq_ok hlive
  obtain ⟨hopening, -⟩ := clock_of_opening hloaded hlive
  have hvalid := hloaded.coherent.settings
  have hclock := hyears.onClock hvalid hopening.terminalAge
  have hsucc := hyears.age_succ hclock
  obtain ⟨first, rest, hhead, hfirst⟩ := hyears.age_head hvalid hopening.terminalAge
    (age_of_opening hloaded hnone hlive)
  have htrajectory : (Session.ofLife rules life).trajectory =
      Entry.ofYear first :: rest.map Entry.ofYear := congrArg (List.map Entry.ofYear) hhead
  refine ⟨⟨_, _, htrajectory, hfirst⟩, ?_, fun hvisits => ?_⟩
  · rintro ⟨entry, hmem, hbirth⟩
    rw [htrajectory, List.mem_cons, List.mem_map] at hmem
    rcases hmem with rfl | ⟨year, hyear, rfl⟩
    · cases hskips : life.skipsBirth rules.settings with
      | false => rfl
      | true =>
        rw [hskips, if_pos rfl] at hfirst
        exact absurd (hfirst.symm.trans hbirth) (by decide)
    · rw [hhead] at hclock hsucc
      have hlater := one_le_age_of_mem_rest hclock hsucc year hyear
      have hbirth : year.age = 0 := hbirth
      omega
  · rw [htrajectory]
    refine ⟨_, List.mem_cons_self, ?_⟩
    rw [hvisits, if_neg Bool.false_ne_true] at hfirst
    exact hfirst

/-! ## A talent that turns the clock back -/

theorem noneForward_growingRules {amount : Int} (h : amount ≤ 0) (event : Effect) :
    (growingRules (.only .age amount) event).NoneForward := by
  intro talent htalent effect heffect
  have hvalues : (growingRules (.only .age amount) event).talents.values =
      [{ Talent.ofName 1 "" with effect := some (.only .age amount) }] := rfl
  rw [hvalues, List.mem_singleton] at htalent
  subst htalent
  obtain rfl := Option.some.inj heffect
  exact h

/-- A life that begins with a talent that turns the clock back has its first year at the age of 1.
If the talent only comes with birth, birth is visited. -/
theorem birth_of_live_backward :
    (growingDraft (.only .age (-1)) (.only .charm 1)).build =
      .ok (growingRules (.only .age (-1)) (.only .charm 1)) ∧
    (growingRules (.only .age (-1)) (.only .charm 1)).NoneForward ∧
    (∃ life source', live (growingRules (.only .age (-1)) (.only .charm 1))
        (Request.empty.withTalents [1]) (.seeded 0) = (.ok life, source') ∧
      life.skipsBirth (growingRules (.only .age (-1)) (.only .charm 1)).settings = true ∧
      ∃ first rest, (Session.ofLife (growingRules (.only .age (-1)) (.only .charm 1))
        life).trajectory = first :: rest ∧ first.age = 1) ∧
    ∃ life source', live (growingRules (.only .age (-1)) (.only .charm 1)) .empty (.seeded 0) =
        (.ok life, source') ∧
      life.skipsBirth (growingRules (.only .age (-1)) (.only .charm 1)).settings = false ∧
      ∃ entry ∈ (Session.ofLife (growingRules (.only .age (-1)) (.only .charm 1)) life).trajectory,
        entry.age = 0 := by
  have hbuild : (growingDraft (.only .age (-1)) (.only .charm 1)).build =
      .ok (growingRules (.only .age (-1)) (.only .charm 1)) := rfl
  have hnone : (growingRules (.only .age (-1)) (.only .charm 1)).NoneForward :=
    noneForward_growingRules (by decide) _
  refine ⟨hbuild, hnone, ?_, ?_⟩
  · have hlive : ∃ life source', live (growingRules (.only .age (-1)) (.only .charm 1))
        (Request.empty.withTalents [1]) (.seeded 0) = (.ok life, source') ∧
        life.skipsBirth (growingRules (.only .age (-1)) (.only .charm 1)).settings = true :=
      ⟨_, _, rfl, rfl⟩
    obtain ⟨life, source', hlive, hskips⟩ := hlive
    obtain ⟨⟨first, rest, htrajectory, hfirst⟩, -⟩ := birth_of_live (.build hbuild) hnone hlive
    rw [hskips, if_pos rfl] at hfirst
    exact ⟨life, source', hlive, hskips, first, rest, htrajectory, hfirst⟩
  · have hlive : ∃ life source', live (growingRules (.only .age (-1)) (.only .charm 1)) .empty
        (.seeded 0) = (.ok life, source') ∧
        life.skipsBirth (growingRules (.only .age (-1)) (.only .charm 1)).settings = false :=
      ⟨_, _, rfl, rfl⟩
    obtain ⟨life, source', hlive, hvisits⟩ := hlive
    obtain ⟨-, hbirth⟩ := birth_of_live (.build hbuild) hnone hlive
    exact ⟨life, source', hlive, hvisits, hbirth.mpr hvisits⟩

/-- So it is not true that birth is passed over only if a talent brings the clock forward: a life
with a talent that turns it back goes through the ages 1, 2 and 3. -/
theorem exists_live_without_birth :
    ¬∀ (rules : Ruleset) (request : Request) (source source' : Source) (life : Life),
      rules.Loaded → rules.NoneForward → live rules request source = (.ok life, source') →
        ∃ first rest, (Session.ofLife rules life).trajectory = first :: rest ∧ first.age = 0 := by
  intro hbirth
  have hbuild : (growingDraft (.only .age (-1)) (.only .charm 1)).build =
      .ok (growingRules (.only .age (-1)) (.only .charm 1)) := rfl
  have hlive : ∃ life source', live (growingRules (.only .age (-1)) (.only .charm 1))
      (Request.empty.withTalents [1]) (.seeded 0) = (.ok life, source') ∧
      (Session.ofLife (growingRules (.only .age (-1)) (.only .charm 1)) life).trajectory.map
        Entry.age = [1, 2, 3] := ⟨_, _, rfl, rfl⟩
  obtain ⟨life, source', hlive, hages⟩ := hlive
  obtain ⟨first, rest, htrajectory, hfirst⟩ := hbirth _ _ _ _ _ (.build hbuild)
    (noneForward_growingRules (by decide) _) hlive
  rw [htrajectory, List.map_cons, hfirst] at hages
  exact absurd (List.cons.inj hages).1 (by decide)

end LifeCourse
