import LifeCourse.Life.Session
import LifeCourse.Proofs.Life.Moments
import LifeCourse.Proofs.Life.Settling

/-!
# The talents of a life

From the moment in which the talents are settled to the end of the life the active talents are in
harmony, the person lists them, and they begin with the settled ones (`talents_of_live`).

Settling brings this about, whatever replacements are drawn and whoever waits
(`talents_of_resolve`).  After that one step at a time is looked at (`Standing.Sound.step`), and of
the five things that can happen only an unlocked talent joins the active ones.  It is added at the
end, so the settled talents stay in front.
-/

namespace LifeCourse

variable {rules : Ruleset}

/-- The active talents are in harmony, the person lists them, and they begin with some ids. -/
structure Standing.Sound (rules : Ruleset) (settled : List Int) (standing : Standing) : Prop where
  harmony : rules.Harmony standing.tracker.active
  listed : standing.person.talents = standing.tracker.active
  settled : settled <+: standing.tracker.active

/-- **What every step keeps.** -/
theorem Standing.Sound.step (hkeyed : rules.talents.Keyed Talent.id) {settled : List Int}
    {standing standing' : Standing} (hstep : Standing.Step rules standing standing')
    (h : standing.Sound rules settled) : standing'.Sound rules settled := by
  obtain ⟨hharmony, hlisted, hsettled⟩ := h
  cases hstep with
  | turn =>
    have hkeeps := standing.person.keeps_nextYear
    exact ⟨hharmony, hkeeps.talents.trans hlisted, hsettled⟩
  | @unlock id talent hnew hfind hadmits =>
    obtain rfl := hkeyed id talent hfind
    have hgoes := Ruleset.not_any_known_iff.mp hadmits
    refine ⟨hharmony.concat hkeyed hfind hnew hgoes, ?_, ?_⟩
    · show (standing.person.addTalent talent.id).talents = standing.tracker.active ++ [talent.id]
      rw [← hlisted] at hnew ⊢
      exact Person.talents_addTalent_of_not_mem hnew
    · exact hsettled.trans (List.prefix_append _ _)
  | @fire _ talent _ _ _ _ source =>
    have hkeeps := standing.person.keeps_applyIfAny talent.effect source
    exact ⟨hharmony, hkeeps.talents.trans hlisted, hsettled⟩
  | @happen id event _ source =>
    have hkeeps := (standing.person.recordEvent id).keeps_applyIfAny event.effect source
    exact ⟨hharmony, hkeeps.talents.trans hlisted, hsettled⟩
  | achieve => exact ⟨hharmony, hlisted, hsettled⟩

/-- The summary shows the talents with some ids, if the ruleset has them. -/
theorem map_id_known (hkeyed : rules.talents.Keyed Talent.id) {ids : List Int}
    (hknown : ∀ id ∈ ids, ∃ talent, rules.talents.find? id = some talent) :
    ((rules.known ids).map Talent.info).map Info.id = ids := by
  induction ids with
  | nil => rfl
  | cons id rest ih =>
    obtain ⟨⟨talent, hfind⟩, hrest⟩ := List.forall_mem_cons.mp hknown
    have hid : talent.info.id = id := hkeyed id talent hfind
    rw [Ruleset.known, List.filterMap_cons_some hfind, List.map_cons, List.map_cons, hid]
    exact congrArg _ (ih hrest)

/-- **The talents of a life.**  From the settled talents to its closing, a life is a passage of
moments.  In each of them the active talents are distinct, known to the ruleset, and exclude none of
each other; the person lists them in the same order; and the talents that the summary shows, which
are the settled ones, stand in front. -/
theorem talents_of_live {request : Request} {source source' : Source} {life : Life}
    (hloaded : rules.Loaded) (hlive : live rules request source = (.ok life, source')) :
    Standing.Passage rules (life.settled request.achieved)
      (life.moments rules request.achieved) life.closing ∧
    (∀ moment ∈ life.moments rules request.achieved,
      rules.Harmony moment.tracker.active ∧
      moment.person.talents = moment.tracker.active ∧
      (Session.ofLife rules life).summary.talents.map Info.id <+: moment.tracker.active) ∧
    (Session.ofLife rules life).summary.talents.map Info.id = life.resolution.talents ∧
    life.resolution.tracker.active = life.resolution.talents := by
  have hkeyed := hloaded.coherent.talents
  obtain ⟨source₁, hresolve, -⟩ := live_eq_ok hlive
  obtain ⟨hactive, hharmony, hlisted⟩ :=
    talents_of_resolve hkeyed (request.person_eq rules.settings).1 hresolve
  have hsummary : (Session.ofLife rules life).summary.talents.map Info.id =
      life.resolution.talents := by
    have hknown := map_id_known hkeyed hharmony.known
    rw [hactive] at hknown
    exact hknown
  have hstart : (life.settled request.achieved).Sound rules life.resolution.talents :=
    ⟨hharmony, hlisted, by rw [← hactive]; exact List.prefix_rfl⟩
  have hpassage := passage_of_live hlive
  refine ⟨hpassage, fun moment hmem => ?_, hsummary, hactive⟩
  obtain ⟨hharmony, hlisted, hsettled⟩ :=
    hpassage.forall_of_step (fun hstep h => h.step hkeyed hstep) hstart moment hmem
  rw [hsummary]
  exact ⟨hharmony, hlisted, hsettled⟩

/-! ## A talent that is unlocked, and one that is not -/

/-- A draft of rules in which the first two talents exclude each other, and birth unlocks the
others. -/
def unlockingDraft : Draft where
  talents := [("1", {}), ("2", { exclude := some [1] }), ("3", {})]
  ages := [("0", { talents := some [2, 3] })]
  settings := some { Settings.standard with
    terminalAge := 0, terminalAge_le := Range.zero_le_greatest }

/-- The rules of the draft. -/
def unlockingRules : Ruleset where
  talents := .ofList [(1, .ofName 1 ""), (2, { Talent.ofName 2 "" with exclude := [1] }),
    (3, .ofName 3 "")]
  events := .empty
  ages := .ofList [(0, ⟨0, [2, 3], []⟩)]
  achievements := .empty
  rubrics := .empty
  settings := { Settings.standard with terminalAge := 0, terminalAge_le := Range.zero_le_greatest }

/-- Who chooses the first two talents is left with the first one, and is born with the third. -/
theorem talents_of_live_unlocking : unlockingDraft.build = .ok unlockingRules ∧
    ∃ life source', live unlockingRules (Request.empty.withTalents [1, 2, 1]) (.seeded 0) =
        (.ok life, source') ∧
      life.resolution.talents = [1] ∧ life.closing.tracker.active = [1, 3] ∧
      unlockingRules.Harmony life.closing.tracker.active := by
  have hbuild : unlockingDraft.build = .ok unlockingRules := rfl
  have hlive : ∃ life source',
      live unlockingRules (Request.empty.withTalents [1, 2, 1]) (.seeded 0) =
        (.ok life, source') ∧
      life.resolution.talents = [1] ∧ life.closing.tracker.active = [1, 3] :=
    ⟨_, _, rfl, rfl, rfl⟩
  obtain ⟨life, source', hlive, hsettled, hactive⟩ := hlive
  obtain ⟨-, hmoments, -⟩ := talents_of_live (.build hbuild) hlive
  obtain ⟨-, -, hclosing⟩ := recorded_mem_moments hlive
  exact ⟨hbuild, life, source', hlive, hsettled, hactive, (hmoments _ hclosing).1⟩

end LifeCourse
