import LifeCourse.Proofs.Draft.Weights
import LifeCourse.Proofs.Life.Chains
import LifeCourse.Proofs.Life.Choosing
import Mathlib.Data.List.Basic

/-!
# Overlays that nothing refers to

An overlay may bring talents and events that the base has not, and that nothing in the base names.
No life notices them (`simulateWith_merge_of_unreferenced`): with the overlay laid over the base, it
fails alike or shows the same session, and draws the same.

## Why nothing notices them

Entities are looked up by id, and the ids that a life comes to are closed: they come from the
request, from the slot of an age, from a pool, a branch or a follow-up, or are ids of talents that
the base has.  For ids that the overlay lacks, the merged tables answer as the base does
(`Ruleset.find?_talent_merge`, `Ruleset.find?_event_merge`).  So each function of a life is the same
function under the merged rules, as long as the talents taken, active or named are lacking in the
overlay, and that is what each step hands on.

In one place the whole table is walked: the candidates of a grade.  A new talent may stand among
those of a grade only if it is exclusive or the grade has a weight with which nothing is drawn, so
the candidates that can be drawn are the same, in the same order (`filter_candidates_merge`).
-/

namespace LifeCourse

/-! ## Merged tables -/

namespace Table

variable {κ α : Type} [LE κ] [LT κ] [DecidableLT κ] [Std.IsLinearOrder κ] [Std.LawfulOrderLT κ]

theorem find?_merge_of_eq_none [DecidableEq κ] {base overlay : Table κ α} {k : κ}
    (h : overlay.find? k = none) : (base.merge overlay).find? k = base.find? k := by
  rw [find?_merge, h, Option.none_or]

/-- A question to which every value of the overlay says no selects values of the base, if the
overlay has no key of the base. -/
theorem filter_values_merge [DecidableEq κ] {base overlay : Table κ α} {p : α → Bool}
    (hnew : ∀ k a, base.find? k = some a → overlay.find? k = none)
    (hnone : ∀ a ∈ overlay.values, p a = false) :
    (base.merge overlay).values.filter p = base.values.filter p := by
  have hentries : ((base.merge overlay).entries.filter fun entry => p entry.2) =
      base.entries.filter fun entry => p entry.2 := by
    refine entries_ext ((base.merge overlay).ascending.filter _) (base.ascending.filter _)
      fun k => Option.ext fun a => ?_
    rw [lookup_eq_some_iff ((base.merge overlay).ascending.filter _),
      lookup_eq_some_iff (base.ascending.filter _), List.mem_filter, List.mem_filter,
      ← find?_eq_some_iff, ← find?_eq_some_iff]
    constructor
    · rintro ⟨hfind, hp⟩
      rw [find?_merge] at hfind
      rcases Option.or_eq_some_iff.mp hfind with hfind | ⟨-, hfind⟩
      · rw [hnone a (mem_values_iff.mpr ⟨k, hfind⟩)] at hp
        cases hp
      · exact ⟨hfind, hp⟩
    · rintro ⟨hfind, hp⟩
      exact ⟨(find?_merge_of_eq_none (hnew k a hfind)).trans hfind, hp⟩
  rw [values, values, List.filter_map, List.filter_map]
  exact congrArg _ hentries

end Table

/-! ## Overlays -/

namespace Ruleset

/-- The ruleset has no talent with one of the ids. -/
def LacksTalents (rules : Ruleset) (ids : List Int) : Prop :=
  ∀ id ∈ ids, rules.talents.find? id = none

/-- The overlay has talents and events only, these are new to the base, and nothing in the base
refers to them. -/
structure Unreferenced (base overlay : Ruleset) : Prop where
  ages : overlay.ages = .empty
  achievements : overlay.achievements = .empty
  rubrics : overlay.rubrics = .empty
  /-- The base has no talent with the id of one of the overlay. -/
  talents : ∀ id talent, base.talents.find? id = some talent → overlay.talents.find? id = none
  /-- The base has no event with the id of one of the overlay. -/
  events : ∀ id event, base.events.find? id = some event → overlay.events.find? id = none
  /-- No pool names an event of the overlay. -/
  pools : ∀ slot ∈ base.ages.values, ∀ entry ∈ slot.pool, overlay.events.find? entry.event = none
  /-- No branch leads to one. -/
  branches : ∀ event ∈ base.events.values, ∀ branch ∈ event.branches,
    overlay.events.find? branch.target = none
  /-- No event is followed by one. -/
  followUps : ∀ event ∈ base.events.values, ∀ id, event.followUp = some (.event id) →
    overlay.events.find? id = none
  /-- No age unlocks a talent of the overlay. -/
  unlocks : ∀ slot ∈ base.ages.values, overlay.LacksTalents slot.talents
  /-- No replacement names a talent of the overlay. -/
  named : ∀ talent ∈ base.talents.values, ∀ rule, talent.replacement = some rule →
    overlay.LacksTalents (rule.talents.map Prod.fst)
  /-- No replacement draws from the grade of a talent of the overlay, unless that is exclusive. -/
  graded : ∀ new ∈ overlay.talents.values, new.exclusive = true ∨
    ∀ talent ∈ base.talents.values, ∀ rule, talent.replacement = some rule →
      ∀ entry ∈ rule.grades, Source.drawable entry.2 = true → entry.1 ≠ new.grade

variable {base overlay : Ruleset}

theorem find?_talent_merge {id : Int} (h : overlay.talents.find? id = none) :
    (base.merge overlay).talents.find? id = base.talents.find? id :=
  Table.find?_merge_of_eq_none h

theorem find?_event_merge {id : Int} (h : overlay.events.find? id = none) :
    (base.merge overlay).events.find? id = base.events.find? id :=
  Table.find?_merge_of_eq_none h

theorem known_merge {ids : List Int} (h : overlay.LacksTalents ids) :
    (base.merge overlay).known ids = base.known ids :=
  List.filterMap_congr fun id hid => find?_talent_merge (h id hid)

theorem LacksTalents.concat {ids : List Int} {id : Int} (h : overlay.LacksTalents ids)
    (hid : overlay.talents.find? id = none) : overlay.LacksTalents (ids ++ [id]) :=
  List.forall_mem_append.mpr ⟨h, List.forall_mem_singleton.mpr hid⟩

namespace Unreferenced

variable (h : base.Unreferenced overlay)
include h

theorem ages_merge : (base.merge overlay).ages = base.ages := by
  rw [merge, h.ages]
  rfl

theorem achievements_merge : (base.merge overlay).achievements = base.achievements := by
  rw [merge, h.achievements]
  rfl

theorem rubric?_merge (code : String) : (base.merge overlay).rubric? code = base.rubric? code := by
  rw [rubric?, rubric?, merge, h.rubrics]
  rfl

/-- The overlay lacks the talents that the base has. -/
theorem lacksTalents_of_known {ids : List Int}
    (hknown : ∀ id ∈ ids, ∃ talent, base.talents.find? id = some talent) :
    overlay.LacksTalents ids := by
  intro id hid
  obtain ⟨talent, hfind⟩ := hknown id hid
  exact h.talents id talent hfind

end Unreferenced
end Ruleset

variable {base overlay : Ruleset}

/-! ## Settling -/

theorem select_merge {ids : List Int} (hids : overlay.LacksTalents ids) :
    (base.merge overlay).select ids = base.select ids := by
  unfold Ruleset.select
  induction ids with
  | nil => rfl
  | cons id rest ih =>
    obtain ⟨hid, hrest⟩ := List.forall_mem_cons.mp hids
    rw [List.mapM_cons, List.mapM_cons, ih hrest, Ruleset.find?_talent_merge hid]

theorem isCandidate_merge {taken : List Int} (htaken : overlay.LacksTalents taken)
    (talent : Talent) :
    isCandidate (base.merge overlay) talent taken = isCandidate base talent taken := by
  funext candidate
  rw [isCandidate, isCandidate, Ruleset.known_merge htaken]

/-- **The candidates that can be drawn are the same**, whoever is eligible among those that are not
exclusive. -/
theorem filter_candidates_merge (h : base.Unreferenced overlay) {talent : Talent}
    (htalent : talent ∈ base.talents.values) {rule : Replacement}
    (hrule : talent.replacement = some rule) {eligible : Talent → Bool}
    (hexclusive : ∀ candidate, candidate.exclusive = true → eligible candidate = false) :
    ((candidates (base.merge overlay) rule eligible).filter fun option =>
        Source.drawable option.2) =
      (candidates base rule eligible).filter fun option => Source.drawable option.2 := by
  have hnamed : (rule.talents.filterMap fun entry =>
      (((base.merge overlay).talents.find? entry.1).filter eligible).map fun talent =>
        (talent, entry.2)) =
      rule.talents.filterMap fun entry =>
        ((base.talents.find? entry.1).filter eligible).map fun talent => (talent, entry.2) := by
    refine List.filterMap_congr fun entry hentry => ?_
    rw [Ruleset.find?_talent_merge
      (h.named talent htalent rule hrule entry.1 (List.mem_map_of_mem hentry))]
  rw [candidates, candidates, hnamed, List.filter_append, List.filter_append, List.filter_flatMap,
    List.filter_flatMap]
  refine congrArg (· ++ _) (List.flatMap_congr fun entry hentry => ?_)
  rw [List.filter_map, List.filter_map]
  cases hdraw : Source.drawable entry.2 with
  | false =>
    have hnobody : ∀ talents : List Talent, talents.filter ((fun option : Talent × Float =>
        Source.drawable option.2) ∘ fun talent => (talent, entry.2)) = [] := by
      intro talents
      refine List.filter_eq_nil_iff.mpr fun talent _ => ?_
      rw [Function.comp_apply, hdraw]
      exact Bool.false_ne_true
    rw [hnobody, hnobody]
  | true =>
    have hgrade : ∀ new ∈ overlay.talents.values,
        (new.grade == entry.1 && eligible new) = false := by
      intro new hnew
      rcases h.graded new hnew with hexcl | hgrades
      · rw [hexclusive new hexcl, Bool.and_false]
      · have hne := hgrades talent htalent rule hrule entry hentry hdraw
        rw [beq_false_of_ne hne.symm, Bool.false_and]
    have hvalues : ((base.merge overlay).talents.values.filter fun talent =>
        talent.grade == entry.1 && eligible talent) =
        base.talents.values.filter fun talent => talent.grade == entry.1 && eligible talent :=
      Table.filter_values_merge h.talents hgrade
    rw [hvalues]

theorem drawReplacement_merge (h : base.Unreferenced overlay) {talent : Talent}
    (htalent : talent ∈ base.talents.values) {taken : List Int}
    (htaken : overlay.LacksTalents taken) (source : Source) :
    drawReplacement (base.merge overlay) talent taken source =
      drawReplacement base talent taken source := by
  unfold drawReplacement
  cases hrule : talent.replacement with
  | none => rfl
  | some rule =>
    have hexclusive : ∀ candidate, candidate.exclusive = true →
        isCandidate base talent taken candidate = false := by
      intro candidate hexcl
      rw [isCandidate, hexcl]
      simp
    simp only [isCandidate_merge htaken]
    exact Source.pick_congr (filter_candidates_merge h htalent hrule hexclusive) source

/-- **A walk is the same**, and takes no talent of the overlay. -/
theorem walk_merge (hkeyed : base.talents.Keyed Talent.id) (h : base.Unreferenced overlay)
    (steps : Nat) {talent : Talent} (htalent : talent ∈ base.talents.values) {taken : List Int}
    (htaken : overlay.LacksTalents taken) (source : Source) :
    walk (base.merge overlay) steps talent taken source = walk base steps talent taken source ∧
      overlay.LacksTalents (walk base steps talent taken source).2.1 := by
  induction steps generalizing talent taken source with
  | zero => exact ⟨rfl, htaken⟩
  | succ steps ih =>
    rw [walk, walk, drawReplacement_merge h htalent htaken]
    rcases hdraw : drawReplacement base talent taken source with ⟨drawn, source'⟩
    cases drawn with
    | none => exact ⟨rfl, htaken⟩
    | some next =>
      obtain ⟨hnext, -, -⟩ := of_drawReplacement hdraw
      have hnew := h.talents next.id next (hkeyed.find?_of_mem_values hnext)
      have hothers : overlay.LacksTalents (taken.filter (· != talent.id)) := fun id hid =>
        htaken id (List.mem_of_mem_filter hid)
      obtain ⟨hsame, hlacks⟩ := ih hnext (hothers.concat hnew) source'
      refine ⟨?_, hlacks⟩
      simp only [hsame]

theorem settle_merge (hkeyed : base.talents.Keyed Talent.id) (h : base.Unreferenced overlay)
    {survivor : Talent} (hsurvivor : survivor ∈ base.talents.values) {state : SettlingState}
    (htaken : overlay.LacksTalents state.taken) :
    settle (base.merge overlay) survivor state = settle base survivor state ∧
      overlay.LacksTalents (settle base survivor state).2.taken := by
  constructor
  · have hsettings : (base.merge overlay).settings = base.settings := rfl
    rw [settle, settle, hsettings, (walk_merge hkeyed h _ hsurvivor htaken _).1]
  · rcases hsettle : settle base survivor state with ⟨settling, state'⟩
    obtain ⟨⟨steps, source, hwalk⟩, -⟩ := settle_eq hsettle
    have hlacks := (walk_merge hkeyed h steps hsurvivor htaken state.source).2
    rwa [hwalk] at hlacks

theorem settleEach_merge (hkeyed : base.talents.Keyed Talent.id) (h : base.Unreferenced overlay)
    {coming : List Talent} (hcoming : ∀ talent ∈ coming, talent ∈ base.talents.values)
    {state : SettlingState} (htaken : overlay.LacksTalents state.taken) :
    settleEach (base.merge overlay) coming state = settleEach base coming state := by
  induction coming generalizing state with
  | nil => rfl
  | cons survivor rest ih =>
    obtain ⟨hsurvivor, hrest⟩ := List.forall_mem_cons.mp hcoming
    obtain ⟨hsame, hlacks⟩ := settle_merge hkeyed h hsurvivor htaken
    rw [settleEach, settleEach, hsame]
    simp only [ih hrest hlacks]

/-- **The talents are settled alike.** -/
theorem resolve_merge (hkeyed : base.talents.Keyed Talent.id) (h : base.Unreferenced overlay)
    {ids : List Int} (hids : overlay.LacksTalents ids) (person : Person) (source : Source) :
    resolve (base.merge overlay) ids person source = resolve base ids person source := by
  rw [resolve, resolve, select_merge hids]
  cases hselection : base.select ids with
  | error failure =>
    show (Except.error failure : Except Failure (Resolution × Source)) = .error failure
    rfl
  | ok selection =>
    have hsurvivors := mem_values_of_mem_survivors hselection
    have htaken : overlay.LacksTalents ((survivors selection).map Talent.id) :=
      h.lacksTalents_of_known fun id hid => by
        obtain ⟨talent, htalent, rfl⟩ := List.mem_map.mp hid
        exact ⟨talent, hkeyed.find?_of_mem_values (hsurvivors talent htalent)⟩
    have hsame : settleEach (base.merge overlay) (survivors selection)
        ⟨(survivors selection).map Talent.id, .empty, person, source⟩ = _ :=
      settleEach_merge hkeyed h hsurvivors htaken
    simp only [bind, Except.bind, hsame]

/-! ## A year -/

namespace Tracker

theorem unlockOne_merge {id : Int} (hid : overlay.talents.find? id = none)
    {state : Tracker × Person} (hactive : overlay.LacksTalents state.1.active) :
    unlockOne (base.merge overlay) state id = unlockOne base state id ∧
      overlay.LacksTalents (unlockOne base state id).1.active := by
  unfold unlockOne admits
  simp only [Ruleset.find?_talent_merge hid, Ruleset.known_merge hactive]
  refine ⟨trivial, ?_⟩
  split
  · exact hactive
  · split
    · exact hactive
    · split
      · exact hactive.concat hid
      · exact hactive

theorem unlock_merge {ids : List Int} (hids : overlay.LacksTalents ids) {tracker : Tracker}
    (hactive : overlay.LacksTalents tracker.active) (person : Person) :
    tracker.unlock (base.merge overlay) ids person = tracker.unlock base ids person ∧
      overlay.LacksTalents (tracker.unlock base ids person).1.active := by
  unfold unlock
  induction ids generalizing tracker person with
  | nil => exact ⟨rfl, hactive⟩
  | cons id rest ih =>
    obtain ⟨hid, hrest⟩ := List.forall_mem_cons.mp hids
    have hone : unlockOne (base.merge overlay) (tracker, person) id = _ ∧ _ :=
      unlockOne_merge hid hactive
    rw [List.foldl_cons, List.foldl_cons, hone.1]
    exact ih hrest hone.2 _

theorem activateEach_merge {ids : List Int} (hids : overlay.LacksTalents ids) (tracker : Tracker)
    (person : Person) (source : Source) :
    activateEach (base.merge overlay) ids tracker person source =
      activateEach base ids tracker person source := by
  induction ids generalizing tracker person source with
  | nil => rfl
  | cons id rest ih =>
    obtain ⟨hid, hrest⟩ := List.forall_mem_cons.mp hids
    rw [activateEach, activateEach, Ruleset.find?_talent_merge hid]
    simp only [ih hrest]

end Tracker

/-- An event leads to none of the overlay. -/
theorem find?_eq_none_of_next? (h : base.Unreferenced overlay) {event : Event}
    (hevent : event ∈ base.events.values) {lookup : Lookup} {next : Int}
    (hnext : event.next? lookup = some next) : overlay.events.find? next = none := by
  rcases (Event.next?_eq_some_iff.mp hnext).branch_or_followUp with ⟨branch, hbranch, rfl⟩ | hfollow
  · exact h.branches event hevent branch hbranch
  · exact h.followUps event hevent next hfollow

theorem chainFrom_merge (h : base.Unreferenced overlay) (links : Nat) {id : Int}
    (hid : overlay.events.find? id = none) (person : Person) (source : Source) :
    chainFrom (base.merge overlay) links id person source =
      chainFrom base links id person source := by
  induction links generalizing id person source with
  | zero => rfl
  | succ links ih =>
    rw [chainFrom, chainFrom, Ruleset.find?_event_merge hid]
    cases hfind : base.events.find? id with
    | none => rfl
    | some event =>
      have hevent := Table.mem_values_iff.mpr ⟨id, hfind⟩
      simp only
      rcases (person.recordEvent id).applyIfAny event.effect source with ⟨person', source'⟩
      cases hnext : event.next? person'.lookup with
      | none => rfl
      | some next => simp only [ih (find?_eq_none_of_next? h hevent hnext)]

section Slot

variable {slot : AgeSlot} (hpool : ∀ entry ∈ slot.pool, overlay.events.find? entry.event = none)
include hpool

theorem chooseEvent_merge (person : Person) (source : Source) :
    chooseEvent (base.merge overlay) slot person source = chooseEvent base slot person source := by
  have hentries : eligibleEntries (base.merge overlay) slot person =
      eligibleEntries base slot person :=
    List.filterMap_congr fun entry hentry => by
      rw [Ruleset.find?_event_merge (hpool entry hentry)]
  rw [chooseEvent, chooseEvent, hentries]

/-- The event that is chosen is one of the pool. -/
theorem find?_eq_none_of_chooseEvent {person : Person} {source source' : Source} {id : Int}
    (h : chooseEvent base slot person source = (some id, source')) :
    overlay.events.find? id = none := by
  obtain ⟨entry, hentry, event, -, rfl⟩ := exists_offers_of_chooseEvent (congrArg Prod.fst h)
  exact hpool entry hentry

theorem ageChain_merge (h : base.Unreferenced overlay) (person : Person) (source : Source) :
    ageChain (base.merge overlay) slot person source = ageChain base slot person source := by
  rw [ageChain, ageChain, chooseEvent_merge hpool]
  split
  · rename_i first source' hchoose
    exact chainFrom_merge h _ (find?_eq_none_of_chooseEvent hpool hchoose) person source'
  · rfl

end Slot

theorem Standing.check_merge (h : base.Unreferenced overlay) (standing : Standing)
    (opportunity : Opportunity) :
    standing.check (base.merge overlay) opportunity = standing.check base opportunity := by
  rw [check, check, Ledger.check, Ledger.check, h.achievements_merge]

/-- **A year is the same.** -/
theorem liveYear_merge (h : base.Unreferenced overlay) (isLast : Bool) {standing : Standing}
    (hactive : overlay.LacksTalents standing.tracker.active) (source : Source) :
    liveYear (base.merge overlay) isLast standing source =
      liveYear base isLast standing source := by
  rw [liveYear, liveYear, h.ages_merge]
  simp only [Standing.check_merge h, Tracker.activate]
  cases hslot : base.ages.find? (standing.person.nextYear.current .age) with
  | none =>
    simp only [Tracker.activateEach_merge hactive]
  | some slot =>
    have hvalue := Table.mem_values_iff.mpr ⟨_, hslot⟩
    have hunlock : standing.tracker.unlock (base.merge overlay) slot.talents
        standing.person.nextYear = _ ∧ _ :=
      Tracker.unlock_merge (h.unlocks slot hvalue) hactive standing.person.nextYear
    simp only [hunlock.1, Tracker.activateEach_merge hunlock.2,
      ageChain_merge (h.pools slot hvalue) h]

/-- No step makes a talent of the overlay active. -/
theorem Standing.Step.lacksTalents (h : base.Unreferenced overlay) {standing standing' : Standing}
    (hstep : Standing.Step base standing standing')
    (hactive : overlay.LacksTalents standing.tracker.active) :
    overlay.LacksTalents standing'.tracker.active := by
  cases hstep with
  | @unlock id talent _ hfind _ => exact hactive.concat (h.talents id talent hfind)
  | turn => exact hactive
  | fire => exact hactive
  | happen => exact hactive
  | achieve => exact hactive

theorem liveYears_merge (h : base.Unreferenced overlay) (left : Nat) {standing : Standing}
    (hactive : overlay.LacksTalents standing.tracker.active) (source : Source) :
    liveYears (base.merge overlay) left standing source = liveYears base left standing source := by
  induction left generalizing standing source with
  | zero => rfl
  | succ left ih =>
    rw [liveYears, liveYears, liveYear_merge h _ hactive]
    rcases hyear : liveYear base (left == 0) standing source with ⟨year, source'⟩
    have hnext := (passage_liveYear hyear).1.last_of_step
      (fun hstep hs => hstep.lacksTalents h hs) hactive
    simp only [ih hnext]

/-! ## A life -/

/-- A resolution under the base has no talent of the overlay, neither settled nor active. -/
theorem lacksTalents_of_resolve (hkeyed : base.talents.Keyed Talent.id)
    (h : base.Unreferenced overlay) {request : Request} {source source' : Source}
    {resolution : Resolution}
    (hresolve : resolve base request.talents (request.person base.settings) source =
      .ok (resolution, source')) :
    overlay.LacksTalents resolution.talents ∧ overlay.LacksTalents resolution.tracker.active := by
  obtain ⟨hactive, hharmony, -⟩ :=
    talents_of_resolve hkeyed (request.person_eq base.settings).1 hresolve
  have hlacks := h.lacksTalents_of_known hharmony.known
  exact ⟨by rwa [← hactive], hlacks⟩

theorem liveSettled_merge (h : base.Unreferenced overlay) (achieved : List (List Int))
    {resolution : Resolution} (hactive : overlay.LacksTalents resolution.tracker.active)
    (source : Source) :
    liveSettled (base.merge overlay) achieved resolution source =
      liveSettled base achieved resolution source := by
  have hsettings : (base.merge overlay).settings = base.settings := rfl
  have hopening : overlay.LacksTalents (Standing.check ⟨resolution.person, resolution.tracker,
    .ofHistory achieved⟩ base .start).tracker.active := hactive
  rw [liveSettled, liveSettled, hsettings]
  simp only [Standing.check_merge h, liveYears_merge h _ hopening]

/-- **A life is the same.** -/
theorem live_merge (hkeyed : base.talents.Keyed Talent.id) (h : base.Unreferenced overlay)
    {request : Request} (hrequest : overlay.LacksTalents request.talents) (source : Source) :
    live (base.merge overlay) request source = live base request source := by
  have hsettings : (base.merge overlay).settings = base.settings := rfl
  rw [live, live, hsettings, resolve_merge hkeyed h hrequest]
  cases hresolve : resolve base request.talents (request.person base.settings) source with
  | error failure => rfl
  | ok resolved =>
    have hactive := (lacksTalents_of_resolve hkeyed h hresolve).2
    simp only [liveSettled_merge h request.achieved hactive]

/-! ## What is shown of a life -/

theorem judgeAll_merge (h : base.Unreferenced overlay) (person : Person) :
    judgeAll (base.merge overlay) person = judgeAll base person :=
  List.filterMap_congr fun judged _ => by
    rw [judge, judge, h.rubric?_merge]
    rfl

theorem Session.ofLife_merge (h : base.Unreferenced overlay) {life : Life}
    (htalents : overlay.LacksTalents life.resolution.talents) :
    Session.ofLife (base.merge overlay) life = Session.ofLife base life := by
  have hsettings : (base.merge overlay).settings = base.settings := rfl
  rw [ofLife, ofLife, summarize, summarize, judgeAll_merge h, Ruleset.known_merge htalents,
    hsettings]

/-- **Nobody notices an overlay that nothing refers to.**  If the overlay has only talents and
events, new ones to which nothing in the base refers, and a request selects none of its talents, the
life under the merged rules fails alike or shows the same session, and draws the same. -/
theorem simulateWith_merge_of_unreferenced (hbase : base.Loaded) (h : base.Unreferenced overlay)
    {request : Request} (hrequest : overlay.LacksTalents request.talents) (source : Source) :
    simulateWith (base.merge overlay) request source = simulateWith base request source := by
  have hkeyed := hbase.coherent.talents
  rw [simulateWith, simulateWith, live_merge hkeyed h hrequest]
  rcases hlive : live base request source with ⟨result, source'⟩
  cases result with
  | error failure => rfl
  | ok life =>
    obtain ⟨source₁, hresolve, -⟩ := live_eq_ok hlive
    have htalents := (lacksTalents_of_resolve hkeyed h hresolve).1
    simp only [Except.map, Session.ofLife_merge h htalents]

/-! ## Strangers in a village -/

/-- A draft of rules in which the first talent is replaced by one of the first grade or by the
second talent, which is of that grade, and in which the first event leads to the second one, or else
again to itself. -/
def villageDraft : Draft where
  talents := [("1", { replacement := some ⟨[("1", 1)], [("2", 1)]⟩ }), ("2", { grade := some 1 })]
  events := [("1", { branches := some [.entry "" 2], followUp := some (.event 1) }), ("2", {})]
  ages := [("0", { talents := some [2], pool := some [.pair 1 1] })]

/-- The rules of the draft. -/
def villageRules : Ruleset where
  talents := .ofList [(1, { Talent.ofName 1 "" with replacement := some ⟨[(1, 1)], [(2, 1)]⟩ }),
    (2, { Talent.ofName 2 "" with grade := 1 })]
  events := .ofList [(1, { Event.ofText 1 "" with
      branches := [⟨.ofText "", 2⟩]
      followUp := some (.event 1) }), (2, .ofText 2 "")]
  ages := .ofList [(0, ⟨0, [2], [⟨1, 1⟩]⟩)]
  achievements := .empty
  rubrics := .empty
  settings := .standard

/-- A draft of strangers: an exclusive talent of the grade that is drawn from, one of another grade,
and an event that leads to the first one of the village. -/
def strangersDraft : Draft where
  talents := [("7", { grade := some 1, exclusive := some true }), ("8", { grade := some 2 })]
  events := [("9", { followUp := some (.event 1) })]

/-- The rules of the draft. -/
def strangersRules : Ruleset where
  talents := .ofList [(7, { Talent.ofName 7 "" with grade := 1, exclusive := true }),
    (8, { Talent.ofName 8 "" with grade := 2 })]
  events := .ofList [(9, { Event.ofText 9 "" with followUp := some (.event 1) })]
  ages := .empty
  achievements := .empty
  rubrics := .empty
  settings := .standard

theorem build_villageDraft : villageDraft.build = .ok villageRules := by
  have hplain : TalentDraft.build "1" {} = .ok (.ofName 1 "") := rfl
  have hrule : ReplacementDraft.build 1 ⟨[("1", 1)], [("2", 1)]⟩ = .ok ⟨[(1, 1)], [(2, 1)]⟩ :=
    ReplacementDraft.build_of_pairwise (.cons ⟨rfl, rfl⟩ .nil) (.cons ⟨rfl, rfl⟩ .nil)
      (List.pairwise_singleton _ _) (List.pairwise_singleton _ _)
  have hfirst : TalentDraft.build "1" { replacement := some ⟨[("1", 1)], [("2", 1)]⟩ } =
      .ok { Talent.ofName 1 "" with replacement := some ⟨[(1, 1)], [(2, 1)]⟩ } :=
    TalentDraft.build_of_replacement {} hplain hrule
  have htalents : buildTable TalentDraft.build Talent.id villageDraft.talents =
      .ok villageRules.talents :=
    buildTable_eq_ok_iff.mpr ⟨_, .cons hfirst (.cons rfl .nil), rfl⟩
  exact Draft.build_eq_ok_iff.mpr ⟨rfl, htalents, rfl, rfl, rfl, rfl⟩

theorem unreferenced_strangersRules : villageRules.Unreferenced strangersRules := by
  have htalents : villageRules.talents.values =
      [{ Talent.ofName 1 "" with replacement := some ⟨[(1, 1)], [(2, 1)]⟩ },
        { Talent.ofName 2 "" with grade := 1 }] := rfl
  have hevents : villageRules.events.values =
      [{ Event.ofText 1 "" with branches := [⟨.ofText "", 2⟩], followUp := some (.event 1) },
        .ofText 2 ""] := rfl
  have hstrangers : strangersRules.talents.values =
      [{ Talent.ofName 7 "" with grade := 1, exclusive := true },
        { Talent.ofName 8 "" with grade := 2 }] := rfl
  have htalentIds : ∀ id ∈ villageRules.talents.keys, strangersRules.talents.find? id = none := by
    decide
  have heventIds : ∀ id ∈ villageRules.events.keys, strangersRules.events.find? id = none := by
    decide
  refine
    { ages := rfl
      achievements := rfl
      rubrics := rfl
      talents := fun id talent hfind =>
        htalentIds id (List.mem_map_of_mem (Table.find?_eq_some_iff.mp hfind))
      events := fun id event hfind =>
        heventIds id (List.mem_map_of_mem (Table.find?_eq_some_iff.mp hfind))
      pools := by decide
      branches := by decide
      followUps := ?_
      unlocks := ?_
      named := ?_
      graded := ?_ }
  · rw [hevents]
    refine List.forall_mem_cons.mpr ⟨fun id hfollow => ?_, ?_⟩
    · obtain rfl := FollowUp.event.inj (Option.some.inj hfollow)
      decide
    · refine List.forall_mem_singleton.mpr fun id hfollow => ?_
      cases hfollow
  · unfold Ruleset.LacksTalents
    decide
  · rw [htalents]
    refine List.forall_mem_cons.mpr ⟨fun rule hrule => ?_, ?_⟩
    · obtain rfl := Option.some.inj hrule
      unfold Ruleset.LacksTalents
      decide
    · refine List.forall_mem_singleton.mpr fun rule hrule => ?_
      cases hrule
  · rw [hstrangers, htalents]
    refine List.forall_mem_cons.mpr ⟨.inl rfl, List.forall_mem_singleton.mpr (.inr ?_)⟩
    refine List.forall_mem_cons.mpr ⟨fun rule hrule => ?_, ?_⟩
    · obtain rfl := Option.some.inj hrule
      exact List.forall_mem_singleton.mpr fun _ => by decide
    · refine List.forall_mem_singleton.mpr fun rule hrule => ?_
      cases hrule

/-- Whoever grows up in the village does not notice the strangers. -/
theorem simulateWith_merge_of_unreferenced_strangers :
    villageDraft.build = .ok villageRules ∧ strangersDraft.build = .ok strangersRules ∧
    (villageRules.merge strangersRules).talents.keys = [1, 2, 7, 8] ∧
    (villageRules.merge strangersRules).events.keys = [1, 2, 9] ∧
    simulateWith (villageRules.merge strangersRules) (Request.empty.withTalents [1])
        (.seeded 0) =
      simulateWith villageRules (Request.empty.withTalents [1]) (.seeded 0) := by
  have hrequest : strangersRules.LacksTalents (Request.empty.withTalents [1]).talents := by
    unfold Ruleset.LacksTalents
    decide
  exact ⟨build_villageDraft, rfl, rfl, rfl, simulateWith_merge_of_unreferenced
    (.build build_villageDraft) unreferenced_strangersRules hrequest _⟩

end LifeCourse
