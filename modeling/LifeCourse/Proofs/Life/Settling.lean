import LifeCourse.Proofs.Life.Frame
import LifeCourse.Proofs.Life.Harmony

/-!
# How a life stands when its talents are settled

Survivors are settled one after another, and until its turn comes a survivor holds a place among
those taken.  What is taken is therefore, in some order, the talents that have joined and the
survivors that are still to come (`SettlingState.Sound`).  A survivor is settled by one walk, after
which the talent at its end joins (`settle_eq`) and perhaps fires (`settle_cases`); nothing else
about `settle` is used.

The last state is the resolution, in which nobody waits any more: the active talents are the
settled ones, and they are in harmony (`talents_of_resolve`).
-/

namespace LifeCourse

variable {rules : Ruleset}

/-! ## One survivor -/

/-- The state after a talent has fired, or would have. -/
theorem SettlingState.keeps_fire (state : SettlingState) (talent : Talent) :
    (state.fire talent).taken = state.taken ∧
      (state.fire talent).tracker.active = state.tracker.active ∧
      state.person.Keeps (state.fire talent).person :=
  ⟨rfl, state.tracker.active_fire talent state.person state.source,
    state.tracker.keeps_fire talent state.person state.source⟩

/-- **A survivor is settled by one walk.**  The talent at its end joins, and may fire, by which
only gauges move.  A survivor that waits makes a walk of no steps. -/
theorem settle_eq {survivor : Talent} {state state' : SettlingState} {settling : Settling}
    (h : settle rules survivor state = (settling, state')) :
    (∃ steps source, walk rules steps survivor state.taken state.source =
        (settling.path, state'.taken, source)) ∧
      settling.survivor = survivor ∧
      state'.tracker.active = state.tracker.active ++ [settling.target.id] ∧
      (state.person.addTalent settling.target.id).Keeps state'.person := by
  unfold settle at h
  split at h
  · rcases hwalk : walk rules rules.settings.maxChainDepth survivor state.taken state.source
      with ⟨path, taken, source⟩
    simp only [hwalk] at h
    split at h
    · cases h
      obtain ⟨htaken, hactive, hkeeps⟩ := SettlingState.keeps_fire
        (SettlingState.join { state with taken := taken, source := source }
          (path.getLast?.getD survivor)) (path.getLast?.getD survivor)
      refine ⟨⟨_, source, hwalk.trans ?_⟩, rfl, hactive, hkeeps⟩
      rw [htaken]
      rfl
    · cases h
      exact ⟨⟨_, source, hwalk⟩, rfl, rfl, .refl _⟩
  · cases h
    exact ⟨⟨0, state.source, rfl⟩, rfl, rfl, .refl _⟩

/-- The talent that joins in place of a survivor is one of the ruleset. -/
theorem target_mem_values {survivor : Talent} (hsurvivor : survivor ∈ rules.talents.values)
    {state state' : SettlingState} {settling : Settling}
    (h : settle rules survivor state = (settling, state')) :
    settling.target ∈ rules.talents.values := by
  obtain ⟨⟨steps, source, hwalk⟩, hself, -, -⟩ := settle_eq h
  rw [Settling.target, hself]
  exact getLast?_walk_mem_values hwalk hsurvivor

/-- **What settling a survivor does.**  The talent at the end of the walk joins.  It may fire too,
if it is not spent, and then it is counted and has its effect. -/
theorem settle_cases {survivor : Talent} {state state' : SettlingState} {settling : Settling}
    (h : settle rules survivor state = (settling, state')) :
    settling.person = state'.person ∧
      ((settling.fired = false ∧ state'.tracker = state.tracker.add settling.target.id ∧
          state'.person = state.person.addTalent settling.target.id) ∨
        (settling.fired = true ∧ state.tracker.isSpent settling.target = false ∧
          state'.tracker =
            (state.tracker.add settling.target.id).countFiring settling.target.id ∧
          ∃ source, state'.person = ((state.person.addTalent settling.target.id).applyIfAny
            settling.target.effect source).1)) := by
  unfold settle at h
  split at h
  · rcases hwalk : walk rules rules.settings.maxChainDepth survivor state.taken state.source
      with ⟨path, taken, source⟩
    simp only [hwalk] at h
    split at h
    · rename_i hfires
      have hspent : state.tracker.isSpent (path.getLast?.getD survivor) = false := by
        simp only [Bool.and_eq_true, Bool.not_eq_true'] at hfires
        exact hfires.2
      have hfire : (state.tracker.add (path.getLast?.getD survivor).id).fire
          (path.getLast?.getD survivor)
          (state.person.addTalent (path.getLast?.getD survivor).id) source =
          ((state.tracker.add (path.getLast?.getD survivor).id).countFiring
              (path.getLast?.getD survivor).id,
            (state.person.addTalent (path.getLast?.getD survivor).id).applyIfAny
              (path.getLast?.getD survivor).effect source) :=
        if_neg (Bool.eq_false_iff.mp hspent)
      cases h
      exact ⟨rfl, .inr ⟨hfires, hspent, congrArg Prod.fst hfire, source,
        congrArg (fun result => result.2.1) hfire⟩⟩
    · rename_i hfires
      cases h
      exact ⟨rfl, .inl ⟨Bool.eq_false_iff.mpr hfires, rfl, rfl⟩⟩
  · cases h
    exact ⟨rfl, .inl ⟨rfl, rfl, rfl⟩⟩

/-- What settling a survivor does to the person: the talent at the end of the walk is added, and
may have its effect. -/
theorem person_settle {survivor : Talent} {state state' : SettlingState} {settling : Settling}
    (h : settle rules survivor state = (settling, state')) :
    state'.person = state.person.addTalent settling.target.id ∨
      ∃ source, state'.person = ((state.person.addTalent settling.target.id).applyIfAny
        settling.target.effect source).1 := by
  obtain ⟨-, ⟨-, -, hperson⟩ | ⟨-, -, -, hperson⟩⟩ := settle_cases h
  · exact .inl hperson
  · exact .inr hperson

/-! ## All survivors -/

/-- What holds while survivors are settled: those taken are in harmony, they are the talents that
have joined and the survivors to come, and the person lists the talents that have joined. -/
structure SettlingState.Sound (rules : Ruleset) (state : SettlingState) (coming : List Talent) :
    Prop where
  harmony : rules.Harmony state.taken
  places : state.taken.Perm (state.tracker.active ++ coming.map Talent.id)
  listed : state.person.talents = state.tracker.active

theorem SettlingState.Sound.settle (hkeyed : rules.talents.Keyed Talent.id) {survivor : Talent}
    {coming : List Talent} {state state' : SettlingState} {settling : Settling}
    (hsound : state.Sound rules (survivor :: coming))
    (h : settle rules survivor state = (settling, state')) :
    state'.Sound rules coming ∧ settling.survivor = survivor := by
  obtain ⟨⟨steps, source, hwalk⟩, hsurvivor, hactive, hkeeps⟩ := settle_eq h
  have htarget : settling.target = settling.path.getLast?.getD survivor := by
    rw [Settling.target, hsurvivor]
  have hplace : state.taken.Perm
      (survivor.id :: (state.tracker.active ++ coming.map Talent.id)) :=
    hsound.places.trans List.perm_middle
  obtain ⟨hharmony, hplaces⟩ := harmony_walk hkeyed hwalk hplace hsound.harmony
  rw [← htarget] at hplaces
  have hnodup := hplaces.nodup_iff.mp hharmony.nodup
  have hnew : settling.target.id ∉ state.tracker.active := fun hmem =>
    (List.nodup_cons.mp hnodup).1 (List.mem_append_left _ hmem)
  refine ⟨⟨hharmony, ?_, ?_⟩, hsurvivor⟩
  · rw [hactive, List.append_assoc]
    exact hplaces.trans List.perm_middle.symm
  · rw [hkeeps.talents, hactive, ← hsound.listed]
    rw [← hsound.listed] at hnew
    exact Person.talents_addTalent_of_not_mem hnew

theorem SettlingState.Sound.settleEach (hkeyed : rules.talents.Keyed Talent.id)
    {coming : List Talent} {state : SettlingState} (hsound : state.Sound rules coming) :
    (settleEach rules coming state).2.Sound rules [] := by
  induction coming generalizing state with
  | nil => exact hsound
  | cons survivor rest ih => exact ih (hsound.settle hkeyed rfl).1

theorem settleEach_cons (rules : Ruleset) (survivor : Talent) (rest : List Talent)
    (state : SettlingState) :
    settleEach rules (survivor :: rest) state =
      ((settle rules survivor state).1 :: (settleEach rules rest (settle rules survivor state).2).1,
        (settleEach rules rest (settle rules survivor state).2).2) :=
  rfl

/-- The talents that join are the targets of the settlings, in order. -/
theorem active_settleEach (rules : Ruleset) (survivors : List Talent) (state : SettlingState) :
    (settleEach rules survivors state).2.tracker.active =
      state.tracker.active ++
        (settleEach rules survivors state).1.map fun settling => settling.target.id := by
  induction survivors generalizing state with
  | nil => exact (List.append_nil _).symm
  | cons survivor rest ih =>
    rcases hsettle : settle rules survivor state with ⟨settling, state'⟩
    obtain ⟨-, -, hactive, -⟩ := settle_eq hsettle
    rw [settleEach_cons, hsettle, List.map_cons, ih state', hactive, List.append_assoc]
    rfl

theorem terminalAge_settleEach (rules : Ruleset) (survivors : List Talent) (state : SettlingState) :
    (settleEach rules survivors state).2.person.terminalAge = state.person.terminalAge := by
  induction survivors generalizing state with
  | nil => rfl
  | cons survivor rest ih =>
    rcases hsettle : settle rules survivor state with ⟨settling, state'⟩
    obtain ⟨-, -, -, hkeeps⟩ := settle_eq hsettle
    rw [settleEach_cons, hsettle]
    exact (ih state').trans hkeeps.terminalAge

/-! ## The resolution -/

/-- A resolution is the last state in which the survivors of the selection are settled. -/
theorem resolve_eq_ok {ids : List Int} {person : Person} {source source' : Source}
    {resolution : Resolution} (h : resolve rules ids person source = .ok (resolution, source')) :
    ∃ selection settlings state, rules.select ids = .ok selection ∧
      settleEach rules (survivors selection)
        ⟨(survivors selection).map Talent.id, .empty, person, source⟩ = (settlings, state) ∧
      resolution = ⟨settlings, state.tracker, state.person⟩ := by
  obtain ⟨selection, hselection, h⟩ := Outcome.bind_eq_ok_iff.mp h
  obtain ⟨rfl, -⟩ := Prod.mk.inj (Except.ok.inj h)
  exact ⟨selection, _, _, hselection, rfl, rfl⟩

theorem terminalAge_of_resolve {ids : List Int} {person : Person} {source source' : Source}
    {resolution : Resolution} (h : resolve rules ids person source = .ok (resolution, source')) :
    resolution.person.terminalAge = person.terminalAge := by
  obtain ⟨selection, settlings, state, -, hsettle, rfl⟩ := resolve_eq_ok h
  have hage := terminalAge_settleEach rules (survivors selection)
    ⟨(survivors selection).map Talent.id, .empty, person, source⟩
  rwa [hsettle] at hage

/-- **Settled talents.**  They are the active ones, they are in harmony, and the person lists
them. -/
theorem talents_of_resolve (hkeyed : rules.talents.Keyed Talent.id) {ids : List Int}
    {person : Person} {source source' : Source} {resolution : Resolution}
    (hnone : person.talents = [])
    (h : resolve rules ids person source = .ok (resolution, source')) :
    resolution.tracker.active = resolution.talents ∧
      rules.Harmony resolution.tracker.active ∧
      resolution.person.talents = resolution.tracker.active := by
  obtain ⟨selection, settlings, state, hselection, hsettle, rfl⟩ := resolve_eq_ok h
  have hstart : SettlingState.Sound rules
      ⟨(survivors selection).map Talent.id, .empty, person, source⟩ (survivors selection) :=
    ⟨harmony_survivors hkeyed hselection, .refl _, hnone⟩
  have hend := hstart.settleEach hkeyed
  have hactive := active_settleEach rules (survivors selection)
    ⟨(survivors selection).map Talent.id, .empty, person, source⟩
  rw [hsettle] at hend hactive
  obtain ⟨hharmony, hplaces, hlisted⟩ := hend
  rw [List.map_nil, List.append_nil] at hplaces
  exact ⟨hactive, hharmony.perm hplaces, hlisted⟩

end LifeCourse
