import LifeCourse.Proofs.Life.Years
import Mathlib.Logic.Relation

/-!
# The moments of a life

A life records how it stood after each year.  What is claimed of a life is often claimed of every
moment in between: after each talent that is unlocked, each talent that fires, each event of a
chain and each achievement.  These moments are put together here from what the life records
(`Life.moments`), and shown to be one passage: each of them is a step of the rules away from the one
before, from the settled talents to the closing of the life (`passage_of_live`).

## What a step says

`Standing.Step` lists the five things that can happen once the talents are settled, each with all
that the life has checked before it lets them happen.  An invariant of lives is therefore one case
analysis over `Standing.Step`, and `Standing.Passage.forall_of_step` carries it through the life.
None of the functions that live a life is opened after this module for the sake of an invariant.

A passage may also rest, since an age may name a talent that does not fit and a checkpoint may pass
an achievement over.
-/

namespace LifeCourse

variable {rules : Ruleset}

namespace Standing

/-- What can happen to a life whose talents are settled. -/
inductive Step (rules : Ruleset) : Standing → Standing → Prop where
  /-- A year turns. -/
  | turn (standing : Standing) :
      Step rules standing { standing with person := standing.person.nextYear }
  /-- A talent is unlocked: it is known, new, and goes with all that are active. -/
  | unlock {standing : Standing} {id : Int} {talent : Talent}
      (hnew : id ∉ standing.tracker.active) (hfind : rules.talents.find? id = some talent)
      (hadmits : standing.tracker.admits rules talent = true) :
      Step rules standing
        { standing with
          tracker := standing.tracker.add id
          person := standing.person.addTalent id }
  /-- An active talent fires: it is not spent, and its condition holds. -/
  | fire {standing : Standing} {id : Int} {talent : Talent}
      (hactive : id ∈ standing.tracker.active) (hfind : rules.talents.find? id = some talent)
      (hspent : standing.tracker.isSpent talent = false)
      (hholds : talent.holds standing.person.lookup = true) (source : Source) :
      Step rules standing
        { standing with
          tracker := standing.tracker.countFiring talent.id
          person := (standing.person.applyIfAny talent.effect source).1 }
  /-- An event happens. -/
  | happen {standing : Standing} {id : Int} {event : Event}
      (hfind : rules.events.find? id = some event) (source : Source) :
      Step rules standing
        { standing with
          person := ((standing.person.recordEvent id).applyIfAny event.effect source).1 }
  /-- An achievement is unlocked at a checkpoint. -/
  | achieve {standing : Standing} {achievement : Achievement} {opportunity : Opportunity}
      (hmem : achievement ∈ rules.achievements.values)
      (hunlocks : standing.ledger.unlocks opportunity achievement standing.person = true) :
      Step rules standing
        { standing with
          ledger := ⟨standing.ledger.known ++ [achievement.id],
            standing.ledger.unlocked ++ [achievement]⟩
          person := standing.person.addAchievement achievement.id }

/-- Standings one after another, each the one before or a step away from it. -/
inductive Passage (rules : Ruleset) : Standing → List Standing → Standing → Prop where
  | done (standing : Standing) : Passage rules standing [] standing
  | cons {standing moment : Standing} {moments : List Standing} {last : Standing}
      (hstep : Relation.ReflGen (Step rules) standing moment)
      (hrest : Passage rules moment moments last) :
      Passage rules standing (moment :: moments) last

namespace Passage

variable {standing middle last : Standing} {moments moments' : List Standing}

theorem append (h : Passage rules standing moments middle)
    (h' : Passage rules middle moments' last) :
    Passage rules standing (moments ++ moments') last := by
  induction h with
  | done => exact h'
  | cons hstep _ ih => exact .cons hstep (ih h')

/-- A moment in which nothing happens may stand at the end of a passage. -/
theorem rest (h : Passage rules standing moments last) :
    Passage rules standing (moments ++ [last]) last :=
  h.append (.cons .refl (.done last))

/-- A passage ends in its last moment. -/
theorem last_mem (h : Passage rules standing moments last) : last ∈ standing :: moments := by
  induction h with
  | done standing => exact List.mem_singleton_self standing
  | cons _ _ ih => exact List.mem_cons_of_mem _ ih

/-- **What every step preserves holds at every moment.** -/
theorem forall_of_step {Inv : Standing → Prop}
    (hInv : ∀ {s s'}, Step rules s s' → Inv s → Inv s')
    (h : Passage rules standing moments last) (hstart : Inv standing) :
    ∀ moment ∈ moments, Inv moment := by
  induction h with
  | done => exact fun moment hmem => absurd hmem List.not_mem_nil
  | @cons standing moment _ _ hstep _ ih =>
    have hmoment : Inv moment := by
      rcases hstep with _ | hstep
      · exact hstart
      · exact hInv hstep hstart
    exact List.forall_mem_cons.mpr ⟨hmoment, ih hmoment⟩

/-- So do what a life comes to in the end. -/
theorem last_of_step {Inv : Standing → Prop} (hInv : ∀ {s s'}, Step rules s s' → Inv s → Inv s')
    (h : Passage rules standing moments last) (hstart : Inv standing) : Inv last := by
  rcases List.mem_cons.mp h.last_mem with heq | hmem
  · rwa [heq]
  · exact h.forall_of_step hInv hstart last hmem

end Passage

/-! ## Trails -/

/-- The standings that a step for each item of a list leads to. -/
def trail {α : Type} (step : Standing → α → Standing) : Standing → List α → List Standing
  | _, [] => []
  | standing, a :: as => step standing a :: trail step (step standing a) as

theorem passage_trail {α : Type} {step : Standing → α → Standing} {as : List α}
    (h : ∀ standing, ∀ a ∈ as, Relation.ReflGen (Step rules) standing (step standing a))
    (standing : Standing) :
    Passage rules standing (trail step standing as) (as.foldl step standing) := by
  induction as generalizing standing with
  | nil => exact .done standing
  | cons a as ih =>
    refine .cons (h standing a List.mem_cons_self) (ih (fun s b hb => ?_) (step standing a))
    exact h s b (List.mem_cons_of_mem a hb)

/-- A trail ends where the steps lead. -/
theorem Passage.eq_foldl {α : Type} {step : Standing → α → Standing} {as : List α}
    {standing last : Standing} (h : Passage rules standing (trail step standing as) last) :
    last = as.foldl step standing := by
  induction as generalizing standing with
  | nil => cases h; rfl
  | cons a as ih => cases h with | cons _ hrest => exact ih hrest

/-! ## One thing after another -/

/-- The standing when a talent of an age has been considered. -/
def unlockOne (rules : Ruleset) (standing : Standing) (id : Int) : Standing :=
  let state := Tracker.unlockOne rules (standing.tracker, standing.person) id
  { standing with tracker := state.1, person := state.2 }

/-- The standing when a talent has fired. -/
def afterFiring (standing : Standing) (firing : Firing) : Standing :=
  { standing with
    tracker := standing.tracker.countFiring firing.talent.id
    person := firing.person }

/-- The standing when an event has happened. -/
def afterLink (standing : Standing) (link : Link) : Standing :=
  { standing with person := link.person }

/-- The standing when an achievement has been considered at a checkpoint. -/
def consider (opportunity : Opportunity) (standing : Standing) (achievement : Achievement) :
    Standing :=
  let state := Ledger.consider opportunity (standing.ledger, standing.person) achievement
  { standing with ledger := state.1, person := state.2 }

theorem foldl_unlockOne (ids : List Int) (standing : Standing) :
    ids.foldl (unlockOne rules) standing =
      { standing with
        tracker := (standing.tracker.unlock rules ids standing.person).1
        person := (standing.tracker.unlock rules ids standing.person).2 } := by
  induction ids generalizing standing with
  | nil => rfl
  | cons id ids ih =>
    rw [List.foldl_cons, ih]
    rfl

theorem foldl_consider (opportunity : Opportunity) (achievements : List Achievement)
    (standing : Standing) :
    achievements.foldl (consider opportunity) standing =
      { standing with
        ledger := (achievements.foldl (Ledger.consider opportunity)
          (standing.ledger, standing.person)).1
        person := (achievements.foldl (Ledger.consider opportunity)
          (standing.ledger, standing.person)).2 } := by
  induction achievements generalizing standing with
  | nil => rfl
  | cons achievement achievements ih =>
    rw [List.foldl_cons, ih]
    rfl

theorem reflGen_unlockOne (standing : Standing) (id : Int) :
    Relation.ReflGen (Step rules) standing (standing.unlockOne rules id) := by
  unfold unlockOne Tracker.unlockOne
  simp only
  split
  · exact .refl
  · rename_i hnew
    have hnew : id ∉ standing.tracker.active := by simpa using hnew
    split
    · exact .refl
    · rename_i talent hfind
      split
      · rename_i hadmits
        exact .single (.unlock hnew hfind hadmits)
      · exact .refl

theorem reflGen_consider (opportunity : Opportunity) (standing : Standing)
    {achievement : Achievement} (hmem : achievement ∈ rules.achievements.values) :
    Relation.ReflGen (Step rules) standing (standing.consider opportunity achievement) := by
  unfold consider Ledger.consider
  simp only
  split
  · rename_i hunlocks
    exact .single (.achieve hmem hunlocks)
  · exact .refl

/-- The talents that fire, one after another. -/
theorem passage_activateEach (ids : List Int) (standing : Standing) (source : Source)
    (hactive : ∀ id ∈ ids, id ∈ standing.tracker.active) :
    Passage rules standing
      (trail afterFiring standing
        (Tracker.activateEach rules ids standing.tracker standing.person source).1)
      { standing with
        tracker := (Tracker.activateEach rules ids standing.tracker standing.person source).2.1
        person :=
          (Tracker.activateEach rules ids standing.tracker standing.person source).2.2.1 } := by
  induction ids generalizing standing source with
  | nil => exact .done standing
  | cons id ids ih =>
    have hrest : ∀ id ∈ ids, id ∈ standing.tracker.active := fun id' hid =>
      hactive id' (List.mem_cons_of_mem id hid)
    rw [Tracker.activateEach]
    split
    · exact ih standing source hrest
    · rename_i talent hfind
      split
      · exact ih standing source hrest
      · rename_i hfires
        simp only [Bool.or_eq_true, Bool.not_eq_true', not_or, Bool.not_eq_true,
          Bool.not_eq_false] at hfires
        obtain ⟨hspent, hholds⟩ := hfires
        have hfire : standing.tracker.fire talent standing.person source =
            (standing.tracker.countFiring talent.id,
              standing.person.applyIfAny talent.effect source) := by
          rw [Tracker.fire, hspent]
          rfl
        rw [hfire]
        refine .cons (.single (.fire (hactive id List.mem_cons_self) hfind hspent hholds source)) ?_
        exact ih { standing with
          tracker := standing.tracker.countFiring talent.id
          person := (standing.person.applyIfAny talent.effect source).1 } _ hrest

variable (rules) in
/-- The talents that fire in a year, one after another. -/
theorem passage_activate (standing : Standing) (source : Source) :
    Passage rules standing
      (trail afterFiring standing (standing.tracker.activate rules standing.person source).1)
      { standing with
        tracker := (standing.tracker.activate rules standing.person source).2.1
        person := (standing.tracker.activate rules standing.person source).2.2.1 } :=
  passage_activateEach standing.tracker.active standing source fun _ hid => hid

/-- The events of a chain, one after another. -/
theorem passage_chainFrom (links : Nat) (id : Int) (standing : Standing) (source : Source) :
    Passage rules standing
      (trail afterLink standing (chainFrom rules links id standing.person source).1)
      { standing with
        person := (chainFrom rules links id standing.person source).2.1 } := by
  induction links generalizing id standing source with
  | zero => exact .done standing
  | succ links ih =>
    rw [chainFrom]
    split
    · exact .done standing
    · rename_i event hfind
      simp only
      split
      · exact .cons (.single (.happen hfind source)) (.done _)
      · rename_i next _
        refine .cons (.single (.happen hfind source)) ?_
        exact ih next { standing with
          person := ((standing.person.recordEvent id).applyIfAny event.effect source).1 } _

/-- The events that an age brings, one after another. -/
theorem passage_ageChain (slot : AgeSlot) (standing : Standing) (source : Source) :
    Passage rules standing
      (trail afterLink standing (ageChain rules slot standing.person source).1)
      { standing with person := (ageChain rules slot standing.person source).2.1 } := by
  rw [ageChain]
  split
  · exact passage_chainFrom _ _ standing _
  · exact .done standing

theorem check_eq_foldl (standing : Standing) (opportunity : Opportunity) :
    standing.check rules opportunity =
      rules.achievements.values.foldl (consider opportunity) standing := by
  rw [foldl_consider]
  rfl

variable (rules) in
/-- A checkpoint gives a person achievements and changes nothing else about them. -/
theorem person_check (standing : Standing) (opportunity : Opportunity) :
    ∃ achievements, (standing.check rules opportunity).person =
      { standing.person with achievements := achievements } := by
  rw [check_eq_foldl]
  generalize rules.achievements.values = values
  induction values generalizing standing with
  | nil => exact ⟨_, rfl⟩
  | cons achievement values ih =>
    have hone : ∃ achievements, (standing.consider opportunity achievement).person =
        { standing.person with achievements := achievements } := by
      unfold consider Ledger.consider
      simp only
      split
      · exact ⟨_, rfl⟩
      · exact ⟨_, rfl⟩
    obtain ⟨achievements, hone⟩ := hone
    obtain ⟨achievements', hrest⟩ := ih (standing.consider opportunity achievement)
    refine ⟨achievements', ?_⟩
    rw [List.foldl_cons, hrest, hone]

variable (rules) in
/-- The achievements of a checkpoint, one after another. -/
theorem passage_check (opportunity : Opportunity) (standing : Standing) :
    Passage rules standing (trail (consider opportunity) standing rules.achievements.values)
      (standing.check rules opportunity) := by
  rw [check_eq_foldl]
  exact passage_trail (fun s a ha => reflGen_consider opportunity s ha) standing

end Standing

/-! ## A year -/

/-- The talents that an age unlocks. -/
def Ruleset.unlocksAt (rules : Ruleset) (age : Int) : List Int :=
  ((rules.ages.find? age).map AgeSlot.talents).getD []

namespace Year

variable (rules : Ruleset) (before : Standing) (year : Year)

/-- The standing when the year has turned. -/
def turned : Standing :=
  { before with person := before.person.nextYear }

/-- The standing when the talents of the age are unlocked. -/
def unlocked : Standing :=
  (rules.unlocksAt year.age).foldl (Standing.unlockOne rules) (turned before)

/-- The standing when the talents of the year have fired. -/
def activated : Standing :=
  year.firings.foldl Standing.afterFiring (year.unlocked rules before)

/-- The standing at the end of the year, before its checkpoint. -/
def evening : Standing :=
  year.chain.foldl Standing.afterLink (year.activated rules before)

/-- The moments of a year, of which the first is the turn of the year. -/
def moments : List Standing :=
  turned before ::
    (Standing.trail (Standing.unlockOne rules) (turned before) (rules.unlocksAt year.age) ++
      Standing.trail Standing.afterFiring (year.unlocked rules before) year.firings ++
      Standing.trail Standing.afterLink (year.activated rules before) year.chain ++
      [year.evening rules before] ++
      Standing.trail (Standing.consider .trajectory) (year.evening rules before)
        rules.achievements.values)

end Year

/-- The links that the year's age brings, with what is left after them. -/
def yearChain (rules : Ruleset) (age : Int) (person : Person) (source : Source) :
    List Link × Person × Source :=
  match rules.ages.find? age with
  | some slot => ageChain rules slot person source
  | none => ([], person, source)

variable (rules) in
theorem Standing.passage_yearChain (age : Int) (standing : Standing) (source : Source) :
    Passage rules standing
      (trail afterLink standing (yearChain rules age standing.person source).1)
      { standing with person := (yearChain rules age standing.person source).2.1 } := by
  rw [yearChain]
  split
  · exact passage_ageChain _ standing source
  · exact .done standing

/-- A year, one part after another. -/
theorem liveYear_parts {isLast : Bool} {before : Standing} {source : Source} {year : Year}
    {source' : Source} (h : liveYear rules isLast before source = (year, source')) :
    ∃ tracker person source₁,
      (year.unlocked rules before).tracker.activate rules (year.unlocked rules before).person
        source = (year.firings, tracker, person, source₁) ∧
      yearChain rules year.age person source₁ = (year.chain, year.person, source') ∧
      year.standing = Standing.check ⟨year.person, tracker, before.ledger⟩ rules .trajectory := by
  unfold Year.unlocked
  rw [Standing.foldl_unlockOne]
  unfold yearChain Ruleset.unlocksAt Year.turned
  cases hslot : rules.ages.find? (before.person.nextYear.current .age) with
  | none =>
    simp only [liveYear, hslot] at h
    obtain ⟨rfl, rfl⟩ := Prod.mk.inj h
    simp only [hslot]
    exact ⟨_, _, _, rfl, rfl, rfl⟩
  | some slot =>
    simp only [liveYear, hslot] at h
    obtain ⟨rfl, rfl⟩ := Prod.mk.inj h
    simp only [hslot]
    exact ⟨_, _, _, rfl, rfl, rfl⟩

section Parts

variable {before : Standing} {source source₁ source₂ : Source} {year : Year} {tracker : Tracker}
  {person : Person}

/-- The standing when the talents of the year have fired, as the pass leaves it. -/
theorem Year.activated_eq
    (hfire : (year.unlocked rules before).tracker.activate rules
      (year.unlocked rules before).person source = (year.firings, tracker, person, source₁)) :
    year.activated rules before =
      { year.unlocked rules before with tracker := tracker, person := person } := by
  have hfired := (Standing.passage_activate rules (year.unlocked rules before) source).eq_foldl
  rw [hfire] at hfired
  exact hfired.symm

/-- The standing at the end of the year, as the chain leaves it. -/
theorem Year.evening_eq
    (hfire : (year.unlocked rules before).tracker.activate rules
      (year.unlocked rules before).person source = (year.firings, tracker, person, source₁))
    (hchain : yearChain rules year.age person source₁ = (year.chain, year.person, source₂)) :
    year.evening rules before =
      { year.unlocked rules before with tracker := tracker, person := year.person } := by
  have hlinks := (Standing.passage_yearChain rules year.age
    { year.unlocked rules before with tracker := tracker, person := person } source₁).eq_foldl
  rw [hchain] at hlinks
  rw [Year.evening, Year.activated_eq hfire]
  exact hlinks.symm

end Parts

/-- A year leads from its turn to its evening, in which the person is as the year records it and
the ledger as it was.  Then comes the checkpoint. -/
theorem evening_of_liveYear {isLast : Bool} {before : Standing} {source : Source} {year : Year}
    {source' : Source} (h : liveYear rules isLast before source = (year, source')) :
    Standing.Passage rules (Year.turned before)
      (Standing.trail (Standing.unlockOne rules) (Year.turned before) (rules.unlocksAt year.age) ++
        Standing.trail Standing.afterFiring (year.unlocked rules before) year.firings ++
        Standing.trail Standing.afterLink (year.activated rules before) year.chain)
      (year.evening rules before) ∧
    (year.evening rules before).person = year.person ∧
    (year.evening rules before).ledger = before.ledger ∧
    year.standing = (year.evening rules before).check rules .trajectory := by
  obtain ⟨tracker, person, source₁, hfire, hchain, hstanding⟩ := liveYear_parts h
  have hunlock : Standing.Passage rules (Year.turned before)
      (Standing.trail (Standing.unlockOne rules) (Year.turned before)
        (rules.unlocksAt year.age)) (year.unlocked rules before) :=
    Standing.passage_trail (fun s id _ => Standing.reflGen_unlockOne s id) _
  have hfired := Standing.passage_activate rules (year.unlocked rules before) source
  rw [hfire, ← Year.activated_eq hfire] at hfired
  have hlinks := Standing.passage_yearChain rules year.age
    { year.unlocked rules before with tracker := tracker, person := person } source₁
  rw [hchain, ← Year.evening_eq hfire hchain, ← Year.activated_eq hfire] at hlinks
  have hledger : (year.unlocked rules before).ledger = before.ledger := by
    rw [Year.unlocked, Standing.foldl_unlockOne]
    rfl
  refine ⟨(hunlock.append hfired).append hlinks, ?_, ?_, ?_⟩
  · rw [Year.evening_eq hfire hchain]
  · rw [Year.evening_eq hfire hchain]
    exact hledger
  · rw [hstanding, Year.evening_eq hfire hchain, ← hledger]

/-- The moments of a year lead through it, and in the evening the person is as the year records
it. -/
theorem passage_liveYear {isLast : Bool} {before : Standing} {source : Source} {year : Year}
    {source' : Source} (h : liveYear rules isLast before source = (year, source')) :
    Standing.Passage rules before (year.moments rules before) year.standing ∧
      (year.evening rules before).person = year.person := by
  obtain ⟨hpassage, hperson, -, hcheck⟩ := evening_of_liveYear h
  refine ⟨?_, hperson⟩
  rw [hcheck]
  exact .cons (.single (.turn before)) (hpassage.rest.append (Standing.passage_check rules _ _))

/-! ## A life -/

/-- The moments of some years, one after another. -/
def momentsOf (rules : Ruleset) : Standing → List Year → List Standing
  | _, [] => []
  | before, year :: years => year.moments rules before ++ momentsOf rules year.standing years

theorem standingAfter_cons (before : Standing) (year : Year) (years : List Year) :
    standingAfter before (year :: years) = standingAfter year.standing years := by
  unfold standingAfter
  cases years with
  | nil => rfl
  | cons next years => rw [List.getLast?_cons_cons, List.getLast?_cons]

/-- The loop of the years is a passage. -/
theorem Goes.passage {lived : Nat} {before : Standing} {source source' : Source}
    {years : List Year} (h : Goes rules lived before source years source') :
    Standing.Passage rules before (momentsOf rules before years) (standingAfter before years) := by
  induction h with
  | last hyear _ =>
    obtain ⟨hpassage, -⟩ := passage_liveYear hyear
    exact hpassage.append (.done _)
  | more hyear _ _ ih =>
    obtain ⟨hpassage, -⟩ := passage_liveYear hyear
    rw [standingAfter_cons]
    exact hpassage.append ih

/-- The standing after a year is its last moment. -/
theorem Goes.standing_mem {lived : Nat} {before : Standing} {source source' : Source}
    {years : List Year} (h : Goes rules lived before source years source') :
    ∀ year ∈ years, year.standing ∈ momentsOf rules before years := by
  have hlast : ∀ {before : Standing} {year : Year} (years : List Year),
      Standing.Passage rules before (year.moments rules before) year.standing →
      year.standing ∈ momentsOf rules before (year :: years) := by
    intro before year years hpassage
    rw [momentsOf]
    rw [Year.moments] at hpassage ⊢
    cases hpassage with
    | cons _ hrest => exact List.mem_append_left _ hrest.last_mem
  induction h with
  | last hyear _ =>
    obtain ⟨hpassage, -⟩ := passage_liveYear hyear
    exact List.forall_mem_singleton.mpr (hlast [] hpassage)
  | more hyear _ _ ih =>
    obtain ⟨hpassage, -⟩ := passage_liveYear hyear
    refine List.forall_mem_cons.mpr ⟨hlast _ hpassage, fun year hmem => ?_⟩
    exact List.mem_append_right _ (ih year hmem)

/-- Each year has a moment, its evening, in which the person is as the year records it. -/
theorem Goes.exists_evening {lived : Nat} {before : Standing} {source source' : Source}
    {years : List Year} (h : Goes rules lived before source years source') :
    ∀ year ∈ years, ∃ moment ∈ momentsOf rules before years, moment.person = year.person := by
  have hevening : ∀ (before : Standing) (year : Year) (years : List Year),
      year.evening rules before ∈ momentsOf rules before (year :: years) := by
    intro before year years
    simp [momentsOf, Year.moments]
  induction h with
  | last hyear _ =>
    obtain ⟨-, hperson⟩ := passage_liveYear hyear
    exact List.forall_mem_singleton.mpr ⟨_, hevening _ _ _, hperson⟩
  | more hyear _ _ ih =>
    obtain ⟨-, hperson⟩ := passage_liveYear hyear
    refine List.forall_mem_cons.mpr ⟨⟨_, hevening _ _ _, hperson⟩, fun year hmem => ?_⟩
    obtain ⟨moment, hmoment, hyear⟩ := ih year hmem
    exact ⟨moment, List.mem_append_right _ hmoment, hyear⟩

namespace Life

variable (life : Life)

/-- The standing when the talents are settled. -/
def settled (achieved : List (List Int)) : Standing :=
  ⟨life.resolution.person, life.resolution.tracker, .ofHistory achieved⟩

/-- The moments of a life from its settled talents to its closing. -/
def moments (rules : Ruleset) (achieved : List (List Int)) : List Standing :=
  life.settled achieved ::
    (Standing.trail (Standing.consider .start) (life.settled achieved)
      rules.achievements.values ++
      momentsOf rules life.opening life.years ++
      Standing.trail (Standing.consider .summary) (standingAfter life.opening life.years)
        rules.achievements.values)

end Life

/-- How a life that does not fail comes about: the talents are settled, then the loop of the years
comes to its end. -/
theorem live_eq_ok {request : Request} {source source' : Source} {life : Life}
    (h : live rules request source = (.ok life, source')) :
    ∃ source₁, resolve rules request.talents (request.person rules.settings) source =
        .ok (life.resolution, source₁) ∧
      life.opening = (life.settled request.achieved).check rules .start ∧
      Goes rules 0 life.opening source₁ life.years source' ∧
      life.closing = (standingAfter life.opening life.years).check rules .summary := by
  rw [live] at h
  split at h
  · cases (Prod.mk.inj h).1
  · rename_i resolution source₁ hresolve
    obtain ⟨hlife, hsource⟩ := Prod.mk.inj h
    obtain rfl := Except.ok.inj hlife
    subst hsource
    refine ⟨source₁, hresolve, rfl, ?_, rfl⟩
    have hleft : 0 + (2 * rules.settings.terminalAge.toNat + 1) + 1 = rules.settings.maxYears := by
      rw [Settings.maxYears]
      omega
    exact goes_liveYears _ hleft _ source₁

/-- **A life is one passage** from its settled talents to its closing. -/
theorem passage_of_live {request : Request} {source source' : Source} {life : Life}
    (h : live rules request source = (.ok life, source')) :
    Standing.Passage rules (life.settled request.achieved)
      (life.moments rules request.achieved) life.closing := by
  obtain ⟨source₁, -, hopening, hyears, hclosing⟩ := live_eq_ok h
  have hstart := Standing.passage_check rules .start (life.settled request.achieved)
  rw [← hopening] at hstart
  have hsummary := Standing.passage_check rules .summary
    (standingAfter life.opening life.years)
  rw [← hclosing] at hsummary
  exact .cons .refl ((hstart.append hyears.passage).append hsummary)

/-- The standings that a life records are among its moments. -/
theorem recorded_mem_moments {request : Request} {source source' : Source} {life : Life}
    (h : live rules request source = (.ok life, source')) :
    life.opening ∈ life.moments rules request.achieved ∧
      (∀ year ∈ life.years, year.standing ∈ life.moments rules request.achieved) ∧
      life.closing ∈ life.moments rules request.achieved := by
  obtain ⟨source₁, -, hopening, hyears, -⟩ := live_eq_ok h
  refine ⟨?_, fun year hyear => ?_, ?_⟩
  · have hstart := Standing.passage_check rules .start (life.settled request.achieved)
    rw [← hopening] at hstart
    rcases List.mem_cons.mp hstart.last_mem with heq | hmem
    · rw [heq]
      exact List.mem_cons_self
    · exact List.mem_cons_of_mem _ (List.mem_append_left _ (List.mem_append_left _ hmem))
  · have hmem := hyears.standing_mem year hyear
    exact List.mem_cons_of_mem _ (List.mem_append_left _ (List.mem_append_right _ hmem))
  · rcases List.mem_cons.mp (passage_of_live h).last_mem with heq | hmem
    · rw [heq]
      exact List.mem_cons_self
    · exact hmem

end LifeCourse
