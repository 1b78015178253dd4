import LifeCourse.Proofs.Life.Enumerated
import LifeCourse.Proofs.Life.Overlays
import LifeCourse.Proofs.Rules.Pruned
import Mathlib.Data.List.Find

/-!
# What never does anything is not missed

Rules may be pruned, and every life stays the same (`simulateWith_pruned`): it fails alike or shows the
same session, and it draws the same.

## The same draws

A draw consumes a word of the source and depends on all of its options, so it is the place where
something that is taken out could still be felt.  Two facts keep it the same.  What is drawn from is
the drawable options alone (`Source.pick_congr`), and of those none is lost: the pruned options are,
as far as they can be drawn, the options with their entities pruned (`filter_candidates_pruned`,
`eligibleEntries_pruned`).  And a draw does not look at what it draws (`Source.pick_map`).

Everything else follows the recursion of each function, as an equation between what it does under the
pruned rules and the pruned record of what it does under the rules.  The persons, the trackers and the
ledgers are the same on both sides; only the talents and events that a record holds are pruned ones.

Two talents must be talents of the rules to conflict as before, since what a talent excludes is pruned.
Whoever is held against another one in a life is, for the tables are read by key and each talent stands
under its own id.
-/

namespace LifeCourse

variable {rules : Ruleset}

/-! ## Records of pruned entities -/

/-- The firing of the pruned talent. -/
def Firing.pruned (rules : Ruleset) (firing : Firing) : Firing :=
  { firing with talent := firing.talent.pruned rules }

/-- The link of the pruned event. -/
def Link.pruned (rules : Ruleset) (link : Link) : Link :=
  { link with event := link.event.pruned rules }

/-- The settling of the pruned survivor, with its pruned replacements. -/
def Settling.pruned (rules : Ruleset) (settling : Settling) : Settling :=
  { settling with
    survivor := settling.survivor.pruned rules
    path := settling.path.map (Talent.pruned rules) }

/-- The resolution with its settlings pruned. -/
def Resolution.pruned (rules : Ruleset) (resolution : Resolution) : Resolution :=
  { resolution with settlings := resolution.settlings.map (Settling.pruned rules) }

/-- The year with its firings and links pruned. -/
def Year.pruned (rules : Ruleset) (year : Year) : Year :=
  { year with
    firings := year.firings.map (Firing.pruned rules)
    chain := year.chain.map (Link.pruned rules) }

/-- The life with its resolution and its years pruned. -/
def Life.pruned (rules : Ruleset) (life : Life) : Life :=
  { life with
    resolution := life.resolution.pruned rules
    years := life.years.map (Year.pruned rules) }

/-! ## Selection -/

/-- Tests that agree on the members of a list are met by one of them alike. -/
theorem any_congr_of_mem {α : Type} {items : List α} {p q : α → Bool}
    (h : ∀ a ∈ items, p a = q a) : items.any p = items.any q := by
  rw [Bool.eq_iff_iff, List.any_eq_true, List.any_eq_true]
  exact exists_congr fun a => and_congr_right fun ha => by rw [h a ha]

theorem select_pruned (ids : List Int) :
    rules.pruned.select ids = (rules.select ids).map (List.map (Talent.pruned rules)) := by
  unfold Ruleset.select
  induction ids with
  | nil => rfl
  | cons id rest ih =>
    rw [List.mapM_cons, List.mapM_cons, ih, rules.find?_talents_pruned]
    cases rules.talents.find? id with
    | none => rfl
    | some talent =>
      generalize List.mapM (m := Except Failure) _ rest = selection
      cases selection with
      | error failure => rfl
      | ok selection => rfl

theorem survivorsFrom_pruned {kept selection : List Talent}
    (hkept : ∀ talent ∈ kept, rules.hasTalent talent.id = true)
    (hselection : ∀ talent ∈ selection, rules.hasTalent talent.id = true) :
    survivorsFrom (kept.map (Talent.pruned rules)) (selection.map (Talent.pruned rules)) =
      (survivorsFrom kept selection).map (Talent.pruned rules) := by
  induction selection generalizing kept with
  | nil => rfl
  | cons talent rest ih =>
    obtain ⟨htalent, hrest⟩ := List.forall_mem_cons.mp hselection
    have hany : ((kept.map (Talent.pruned rules)).any fun other =>
        other.id == (talent.pruned rules).id || other.conflicts (talent.pruned rules)) =
          kept.any fun other => other.id == talent.id || other.conflicts talent := by
      rw [List.any_map]
      refine any_congr_of_mem fun other hother => ?_
      show (other.id == talent.id || _) = _
      rw [Talent.conflicts_pruned (hkept other hother) htalent]
    rw [List.map_cons, survivorsFrom, survivorsFrom, hany]
    split
    · exact ih hkept hrest
    · have hkept' : ∀ other ∈ kept ++ [talent], rules.hasTalent other.id = true :=
        List.forall_mem_append.mpr ⟨hkept, List.forall_mem_singleton.mpr htalent⟩
      rw [List.map_cons, ← ih hkept' hrest, List.map_append]
      rfl

/-! ## Replacement -/

section Draws

variable (hkeyed : rules.talents.Keyed Talent.id)
include hkeyed

/-- A talent that is known by an id is one of the rules by its own id. -/
theorem hasTalent_of_mem_values {talent : Talent} (h : talent ∈ rules.talents.values) :
    rules.hasTalent talent.id = true :=
  Ruleset.hasTalent_of_find? (hkeyed.find?_of_mem_values h)

/-- Known talents clash with a talent as before. -/
theorem any_known_pruned (ids : List Int) {talent : Talent}
    (htalent : rules.hasTalent talent.id = true) :
    ((rules.pruned.known ids).any fun held => held.conflicts (talent.pruned rules)) =
      (rules.known ids).any fun held => held.conflicts talent := by
  rw [Ruleset.known_pruned, List.any_map]
  refine any_congr_of_mem fun held hheld => ?_
  obtain ⟨id, -, hfind⟩ := List.mem_filterMap.mp hheld
  exact Talent.conflicts_pruned
    (hasTalent_of_mem_values hkeyed (Table.mem_values_iff.mpr ⟨id, hfind⟩)) htalent

theorem isCandidate_pruned (talent : Talent) (taken : List Int) {candidate : Talent}
    (hcandidate : candidate ∈ rules.talents.values) :
    isCandidate rules.pruned (talent.pruned rules) taken (candidate.pruned rules) =
      isCandidate rules talent taken candidate := by
  rw [isCandidate, isCandidate,
    any_known_pruned hkeyed taken (hasTalent_of_mem_values hkeyed hcandidate)]
  rfl

omit hkeyed in
/-- Members that come with a weight of their list: without the weights that cannot be drawn the
drawable members are the same. -/
theorem filter_flatMap_drawable {α : Type} (weights : List (Int × Float)) (members : Int → List α) :
    (((weights.filter fun entry => Source.drawable entry.2).flatMap fun entry =>
        (members entry.1).map fun a => (a, entry.2)).filter
          fun option => Source.drawable option.2) =
      (weights.flatMap fun entry => (members entry.1).map fun a => (a, entry.2)).filter
        fun option => Source.drawable option.2 := by
  induction weights with
  | nil => rfl
  | cons entry rest ih =>
    rw [List.flatMap_cons, List.filter_append, ← ih]
    cases hdrawable : Source.drawable entry.2 with
    | true =>
      have hkeep : (entry :: rest).filter (fun entry => Source.drawable entry.2) =
          entry :: rest.filter fun entry => Source.drawable entry.2 :=
        List.filter_cons_of_pos hdrawable
      rw [hkeep, List.flatMap_cons, List.filter_append]
    | false =>
      have hdrop : (entry :: rest).filter (fun entry => Source.drawable entry.2) =
          rest.filter fun entry => Source.drawable entry.2 :=
        List.filter_cons_of_neg (Bool.eq_false_iff.mp hdrawable)
      have hnone : ((members entry.1).map fun a => (a, entry.2)).filter
          (fun option => Source.drawable option.2) = [] := by
        simp [List.filter_eq_nil_iff, hdrawable]
      rw [hdrop, hnone, List.nil_append]

/-- The candidates of a grade are the same ones, pruned. -/
theorem filter_values_pruned (talent : Talent) (taken : List Int) (grade : Int) :
    (rules.pruned.talents.values.filter fun other => other.grade == grade &&
        isCandidate rules.pruned (talent.pruned rules) taken other) =
      (rules.talents.values.filter fun other => other.grade == grade &&
        isCandidate rules talent taken other).map (Talent.pruned rules) := by
  rw [Ruleset.values_talents_pruned, List.filter_map]
  refine congrArg _ (List.filter_congr fun other hother => ?_)
  exact congrArg _ (isCandidate_pruned hkeyed talent taken hother)

/-- A named candidate is the same one, pruned, if it can be drawn. -/
theorem filter_named_pruned (talent : Talent) (taken : List Int) (entry : Int × Float) :
    (if (rules.hasTalent entry.1 && Source.drawable entry.2) = true then
        ((rules.pruned.talents.find? entry.1).filter
          (isCandidate rules.pruned (talent.pruned rules) taken)).map fun other => (other, entry.2)
      else none).filter (fun option => Source.drawable option.2) =
      ((((rules.talents.find? entry.1).filter (isCandidate rules talent taken)).map
        fun other => (other, entry.2)).map fun option => (option.1.pruned rules, option.2)).filter
          fun option => Source.drawable option.2 := by
  rw [rules.find?_talents_pruned, Ruleset.hasTalent]
  cases hfind : rules.talents.find? entry.1 with
  | none => rfl
  | some named =>
    have hcandidate := isCandidate_pruned hkeyed talent taken (Table.mem_values_iff.mpr ⟨_, hfind⟩)
    simp only [Option.map_some, Option.filter_some, hcandidate, Option.isSome_some, Bool.true_and]
    cases isCandidate rules talent taken named with
    | false =>
      split
      · rfl
      · rfl
    | true =>
      cases hdrawable : Source.drawable entry.2 with
      | true => rfl
      | false => simp [Option.filter_some, hdrawable]

/-- **Of the candidates that can be drawn none is lost.** -/
theorem filter_candidates_pruned (talent : Talent) (taken : List Int) (rule : Replacement) :
    ((candidates rules.pruned (rule.pruned rules)
        (isCandidate rules.pruned (talent.pruned rules) taken)).filter
          fun candidate => Source.drawable candidate.2) =
      ((candidates rules rule (isCandidate rules talent taken)).map
        fun candidate => (candidate.1.pruned rules, candidate.2)).filter
          fun candidate => Source.drawable candidate.2 := by
  rw [candidates, candidates, List.map_append, List.filter_append, List.filter_append]
  congr 1
  · simp only [filter_values_pruned hkeyed, Replacement.pruned]
    rw [filter_flatMap_drawable rule.grades fun grade =>
      (rules.talents.values.filter fun other => other.grade == grade &&
        isCandidate rules talent taken other).map (Talent.pruned rules), List.map_flatMap]
    simp only [List.map_map]
    rfl
  · rw [Replacement.pruned, List.filterMap_filter, List.filter_filterMap, List.map_filterMap,
      List.filter_filterMap]
    exact List.filterMap_congr fun entry _ => filter_named_pruned hkeyed talent taken entry

/-- **A draw leads to the same talent, pruned.** -/
theorem drawReplacement_pruned (talent : Talent) (taken : List Int) (source : Source) :
    drawReplacement rules.pruned (talent.pruned rules) taken source =
      ((drawReplacement rules talent taken source).1.map (Talent.pruned rules),
        (drawReplacement rules talent taken source).2) := by
  have hreplacement : (talent.pruned rules).replacement =
      talent.replacement.map (Replacement.pruned rules) := rfl
  rw [drawReplacement, drawReplacement, hreplacement]
  cases talent.replacement with
  | none => rfl
  | some rule =>
    exact (Source.pick_congr (filter_candidates_pruned hkeyed talent taken rule) source).trans
      (Source.pick_map (Talent.pruned rules) _ source)

theorem walk_pruned (steps : Nat) (talent : Talent) (taken : List Int) (source : Source) :
    walk rules.pruned steps (talent.pruned rules) taken source =
      ((walk rules steps talent taken source).1.map (Talent.pruned rules),
        (walk rules steps talent taken source).2) := by
  induction steps generalizing talent taken source with
  | zero => rfl
  | succ steps ih =>
    rw [walk, walk, drawReplacement_pruned hkeyed]
    rcases drawReplacement rules talent taken source with ⟨_ | next, source'⟩
    · rfl
    · simp only [Option.map_some, Talent.id_pruned, ih, List.map_cons]

/-! ## Settling -/

theorem settle_pruned (survivor : Talent) (state : SettlingState) :
    settle rules.pruned (survivor.pruned rules) state =
      ((settle rules survivor state).1.pruned rules, (settle rules survivor state).2) := by
  rw [settle, settle, Talent.holds_pruned]
  split
  · rw [Ruleset.settings_pruned, walk_pruned hkeyed]
    rcases walk rules rules.settings.maxChainDepth survivor state.taken state.source with
      ⟨path, taken, source⟩
    have htarget : (path.map (Talent.pruned rules)).getLast?.getD (survivor.pruned rules) =
        (path.getLast?.getD survivor).pruned rules := by
      rw [List.getLast?_map, Option.getD_map]
    simp only [htarget]
    rfl
  · rfl

theorem settleEach_pruned (coming : List Talent) (state : SettlingState) :
    settleEach rules.pruned (coming.map (Talent.pruned rules)) state =
      ((settleEach rules coming state).1.map (Settling.pruned rules),
        (settleEach rules coming state).2) := by
  induction coming generalizing state with
  | nil => rfl
  | cons survivor rest ih =>
    rw [List.map_cons, settleEach, settleEach, settle_pruned hkeyed]
    simp only [ih]
    rfl

/-- **The talents are settled alike.** -/
theorem resolve_pruned (ids : List Int) (person : Person) (source : Source) :
    resolve rules.pruned ids person source =
      (resolve rules ids person source).map fun resolved =>
        (resolved.1.pruned rules, resolved.2) := by
  rw [resolve, resolve, select_pruned]
  cases hselection : rules.select ids with
  | error failure => rfl
  | ok selection =>
    have hsurvivors : survivors (selection.map (Talent.pruned rules)) =
        (survivors selection).map (Talent.pruned rules) :=
      survivorsFrom_pruned (fun _ hmem => absurd hmem List.not_mem_nil) fun talent hmem =>
        hasTalent_of_mem_values hkeyed (mem_values_of_mem_select hselection talent hmem)
    have hids : ((survivors selection).map (Talent.pruned rules)).map Talent.id =
        (survivors selection).map Talent.id := by
      rw [List.map_map]
      rfl
    simp only [Except.map, bind, Except.bind, hsurvivors, hids, settleEach_pruned hkeyed]
    rfl

/-! ## Talents in a year -/

theorem unlockOne_pruned (state : Tracker × Person) (id : Int) :
    Tracker.unlockOne rules.pruned state id = Tracker.unlockOne rules state id := by
  rw [Tracker.unlockOne, Tracker.unlockOne, rules.find?_talents_pruned]
  cases hfind : rules.talents.find? id with
  | none => rfl
  | some talent =>
    have hadmits : state.1.admits rules.pruned (talent.pruned rules) =
        state.1.admits rules talent :=
      congrArg not (any_known_pruned hkeyed _
        (hasTalent_of_mem_values hkeyed (Table.mem_values_iff.mpr ⟨id, hfind⟩)))
    simp only [Option.map_some, hadmits]

/-- **The talents of an age are unlocked alike.**  One that is unknown was passed over. -/
theorem unlock_pruned (tracker : Tracker) (ids : List Int) (person : Person) :
    tracker.unlock rules.pruned (ids.filter rules.hasTalent) person =
      tracker.unlock rules ids person := by
  rw [Tracker.unlock, Tracker.unlock, List.foldl_filter]
  congr 1
  funext state id
  rw [unlockOne_pruned hkeyed]
  split
  · rfl
  · rename_i hunknown
    have hnone : rules.talents.find? id = none := by
      simpa [Ruleset.hasTalent] using hunknown
    rw [Tracker.unlockOne, hnone]
    simp only [ite_self]

end Draws

theorem activateEach_pruned (ids : List Int) (tracker : Tracker) (person : Person)
    (source : Source) :
    Tracker.activateEach rules.pruned ids tracker person source =
      ((Tracker.activateEach rules ids tracker person source).1.map (Firing.pruned rules),
        (Tracker.activateEach rules ids tracker person source).2) := by
  induction ids generalizing tracker person source with
  | nil => rfl
  | cons id rest ih =>
    rw [Tracker.activateEach, Tracker.activateEach, rules.find?_talents_pruned]
    cases rules.talents.find? id with
    | none => exact ih tracker person source
    | some talent =>
      have hspent : tracker.isSpent (talent.pruned rules) = tracker.isSpent talent := rfl
      have hfire : tracker.fire (talent.pruned rules) person source =
          tracker.fire talent person source := rfl
      simp only [Option.map_some, hspent, Talent.holds_pruned, hfire, ih]
      split
      · rfl
      · rfl

/-! ## Events in a year -/

/-- **Of the eligible entries that count none is lost.** -/
theorem eligibleEntries_pruned (slot : AgeSlot) (person : Person) :
    eligibleEntries rules.pruned (slot.pruned rules) person =
      ((eligibleEntries rules slot person).filter fun entry =>
        Source.drawable entry.2.weight || entry.1.noRandom).map
          fun entry => (entry.1.pruned rules, entry.2) := by
  rw [eligibleEntries, eligibleEntries, AgeSlot.pruned, List.filterMap_filter,
    List.filter_filterMap, List.map_filterMap]
  refine List.filterMap_congr fun entry _ => ?_
  rw [rules.find?_events_pruned, PoolEntry.counts]
  cases rules.events.find? entry.event with
  | none => rfl
  | some event =>
    rw [Option.any_some, Option.map_some, Option.filter_some, Option.filter_some,
      Event.isEligible_pruned]
    cases event.isEligible person.lookup with
    | false => exact ite_self _
    | true =>
      show (if (Source.drawable entry.weight || event.noRandom) = true then
          some (event.pruned rules, entry) else none) =
        Option.map _ (Option.filter _ (some (event, entry)))
      rw [Option.filter_some, apply_ite (Option.map _)]
      rfl

/-- **The same event is chosen.** -/
theorem chooseEvent_pruned (slot : AgeSlot) (person : Person) (source : Source) :
    chooseEvent rules.pruned (slot.pruned rules) person source =
      chooseEvent rules slot person source := by
  rw [chooseEvent, chooseEvent, eligibleEntries_pruned]
  generalize eligibleEntries rules slot person = entries
  -- an entry that needs no draw counts, and so does every one that can be drawn
  have hfirst : ((entries.filter fun entry =>
      Source.drawable entry.2.weight || entry.1.noRandom).map fun entry =>
        (entry.1.pruned rules, entry.2)).find? (fun entry => entry.1.noRandom) =
      (entries.find? fun entry => entry.1.noRandom).map fun entry =>
        (entry.1.pruned rules, entry.2) := by
    rw [List.find?_map, List.find?_filter]
    refine congrArg _ (List.find?_congr fun entry _ => ?_)
    cases hfirst : entry.1.noRandom with
    | true => simp [hfirst]
    | false => simp [hfirst]
  have hdrawn : (((entries.filter fun entry =>
      Source.drawable entry.2.weight || entry.1.noRandom).map fun entry =>
        (entry.1.pruned rules, entry.2)).map fun entry => (entry.2.event, entry.2.weight)).filter
          (fun option => Source.drawable option.2) =
      (entries.map fun entry => (entry.2.event, entry.2.weight)).filter
        fun option => Source.drawable option.2 := by
    rw [List.map_map, List.filter_map, List.filter_map, List.filter_filter]
    refine congrArg _ (List.filter_congr fun entry _ => ?_)
    exact Bool.and_eq_left_iff_imp.mpr fun hdrawable => Bool.or_eq_true_iff.mpr (.inl hdrawable)
  simp only [hfirst]
  cases entries.find? fun entry => entry.1.noRandom with
  | some entry => rfl
  | none => exact Source.pick_congr hdrawn source

/-- An unknown event begins no chain. -/
theorem chainFrom_of_eq_none {id : Int} (h : rules.events.find? id = none) (links : Nat)
    (person : Person) (source : Source) :
    chainFrom rules links id person source = ([], person, source) := by
  cases links with
  | zero => rfl
  | succ links => rw [chainFrom, h]

/-- **A chain is the same one, pruned.**  Where it would have gone on to an unknown event it ended
there. -/
theorem chainFrom_pruned (links : Nat) (id : Int) (person : Person) (source : Source) :
    chainFrom rules.pruned links id person source =
      ((chainFrom rules links id person source).1.map (Link.pruned rules),
        (chainFrom rules links id person source).2) := by
  induction links generalizing id person source with
  | zero => rfl
  | succ links ih =>
    rw [chainFrom, chainFrom, rules.find?_events_pruned]
    cases rules.events.find? id with
    | none => rfl
    | some event =>
      have heffect : (event.pruned rules).effect = event.effect := rfl
      simp only [Option.map_some, heffect, Event.next?_pruned]
      generalize (person.recordEvent id).applyIfAny event.effect source = result
      cases event.next? result.1.lookup with
      | none => rfl
      | some next =>
        rw [Option.filter_some]
        cases hleads : (event.branch? result.1.lookup).isSome || rules.hasEvent next with
        | true =>
          simp only [if_true, ih]
          rfl
        | false =>
          have hunknown : rules.events.find? next = none :=
            Option.not_isSome_iff_eq_none.mp
              (Bool.eq_false_iff.mp (Bool.or_eq_false_iff.mp hleads).2)
          simp only [chainFrom_of_eq_none hunknown]
          rfl

theorem ageChain_pruned (slot : AgeSlot) (person : Person) (source : Source) :
    ageChain rules.pruned (slot.pruned rules) person source =
      ((ageChain rules slot person source).1.map (Link.pruned rules),
        (ageChain rules slot person source).2) := by
  rw [ageChain, ageChain, chooseEvent_pruned]
  rcases chooseEvent rules slot person source with ⟨_ | first, source'⟩
  · rfl
  · exact chainFrom_pruned _ first person source'

theorem endsLife_pruned (chain : List Link) :
    endsLife (chain.map (Link.pruned rules)) = endsLife chain := by
  rw [endsLife, endsLife, List.any_map]
  rfl

/-! ## Checkpoints -/

/-- An achievement without a checkpoint is never considered. -/
theorem Ledger.consider_of_eq_none {achievement : Achievement}
    (h : achievement.opportunity = none) (opportunity : Opportunity) (state : Ledger × Person) :
    consider opportunity state achievement = state := by
  have hunlocks : state.1.unlocks opportunity achievement state.2 = false := by
    rw [unlocks, h]
    simp
  rw [consider, hunlocks]
  rfl

theorem Ledger.check_pruned (ledger : Ledger) (opportunity : Opportunity) (person : Person) :
    ledger.check rules.pruned opportunity person = ledger.check rules opportunity person := by
  rw [check, check, Ruleset.pruned, Table.values_filterValues, List.foldl_filter]
  congr 1
  funext state achievement
  split
  · rfl
  · rename_i hnever
    have hnone : achievement.opportunity = none := by
      simpa using hnever
    exact (consider_of_eq_none hnone opportunity state).symm

theorem Standing.check_pruned (standing : Standing) (opportunity : Opportunity) :
    standing.check rules.pruned opportunity = standing.check rules opportunity := by
  rw [check, check, Ledger.check_pruned]

/-! ## A life -/

/-- **A year is the same one, pruned.** -/
theorem liveYear_pruned (hkeyed : rules.talents.Keyed Talent.id) (isLast : Bool)
    (standing : Standing) (source : Source) :
    liveYear rules.pruned isLast standing source =
      ((liveYear rules isLast standing source).1.pruned rules,
        (liveYear rules isLast standing source).2) := by
  rw [liveYear, liveYear, rules.find?_ages_pruned]
  cases rules.ages.find? (standing.person.nextYear.current .age) with
  | none =>
    simp only [Option.map_none, Tracker.activate, activateEach_pruned, Standing.check_pruned]
    rfl
  | some slot =>
    have htalents : (slot.pruned rules).talents = slot.talents.filter rules.hasTalent := rfl
    simp only [Option.map_some, htalents, unlock_pruned hkeyed, Tracker.activate,
      activateEach_pruned, ageChain_pruned, endsLife_pruned, Standing.check_pruned]
    rfl

/-- **The years are the same ones, pruned.** -/
theorem liveYears_pruned (hkeyed : rules.talents.Keyed Talent.id) (left : Nat)
    (standing : Standing) (source : Source) :
    liveYears rules.pruned left standing source =
      ((liveYears rules left standing source).1.map (Year.pruned rules),
        (liveYears rules left standing source).2) := by
  induction left generalizing standing source with
  | zero => rfl
  | succ left ih =>
    rw [liveYears, liveYears, liveYear_pruned hkeyed]
    have hend : ∀ year : Year, (year.pruned rules).isEnd = year.isEnd := fun _ => rfl
    have hstanding : ∀ year : Year, (year.pruned rules).standing = year.standing := fun _ => rfl
    simp only [hend, hstanding, ih]
    split
    · rfl
    · rfl

theorem standingAfter_pruned (opening : Standing) (years : List Year) :
    standingAfter opening (years.map (Year.pruned rules)) = standingAfter opening years := by
  rw [standingAfter, standingAfter, List.getLast?_map]
  cases years.getLast? with
  | none => rfl
  | some year => rfl

theorem liveSettled_pruned (hkeyed : rules.talents.Keyed Talent.id) (achieved : List (List Int))
    (resolution : Resolution) (source : Source) :
    liveSettled rules.pruned achieved (resolution.pruned rules) source =
      ((liveSettled rules achieved resolution source).1.pruned rules,
        (liveSettled rules achieved resolution source).2) := by
  have hperson : (resolution.pruned rules).person = resolution.person := rfl
  have htracker : (resolution.pruned rules).tracker = resolution.tracker := rfl
  rw [liveSettled, liveSettled, hperson, htracker, Standing.check_pruned, Ruleset.settings_pruned]
  simp only [liveYears_pruned hkeyed, standingAfter_pruned, Standing.check_pruned]
  rfl

/-- **A life is the same one, pruned.** -/
theorem live_pruned (hkeyed : rules.talents.Keyed Talent.id) (request : Request)
    (source : Source) :
    live rules.pruned request source =
      ((live rules request source).1.map (Life.pruned rules), (live rules request source).2) := by
  rw [live, live, Ruleset.settings_pruned, resolve_pruned hkeyed]
  cases resolve rules request.talents (request.person rules.settings) source with
  | error failure => rfl
  | ok resolved =>
    simp only [Except.map, liveSettled_pruned hkeyed]

/-! ## What is shown of a life -/

theorem Entry.ofYear_pruned (year : Year) :
    Entry.ofYear (year.pruned rules) = Entry.ofYear year := by
  have hlines : (year.chain.map (Link.pruned rules)).map Line.ofLink =
      year.chain.map Line.ofLink := by
    rw [List.map_map]
    refine List.map_congr_left fun link _ => ?_
    show Line.ofLink (link.pruned rules) = _
    rw [Line.ofLink, Line.ofLink, Link.telling, Link.pruned, Event.telling_pruned]
    rfl
  have hfirings : (year.firings.map (Firing.pruned rules)).map (fun firing =>
      Line.ofTalent firing.talent.info) = year.firings.map fun firing =>
        Line.ofTalent firing.talent.info := by
    rw [List.map_map]
    rfl
  rw [ofYear, ofYear, Year.pruned, hlines, hfirings]

theorem Settling.target_pruned (settling : Settling) :
    (settling.pruned rules).target = settling.target.pruned rules := by
  rw [target, target, Settling.pruned, List.getLast?_map, Option.getD_map]

theorem Settling.replacement?_pruned (settling : Settling) :
    (settling.pruned rules).replacement? = settling.replacement? := by
  rw [replacement?, replacement?, target_pruned]
  rfl

/-- **A pruned life looks the same.** -/
theorem Session.ofLife_pruned (life : Life) :
    Session.ofLife rules.pruned (life.pruned rules) = Session.ofLife rules life := by
  have htrajectory : (life.years.map (Year.pruned rules)).map Entry.ofYear =
      life.years.map Entry.ofYear := by
    rw [List.map_map]
    exact List.map_congr_left fun year _ => Entry.ofYear_pruned year
  have htriggered : ((life.years.map (Year.pruned rules)).flatMap fun year =>
      year.chain.map Link.id) = life.years.flatMap fun year => year.chain.map Link.id := by
    rw [List.flatMap_map]
    exact List.flatMap_congr fun year _ => List.map_map
  have htalents : (life.resolution.pruned rules).talents = life.resolution.talents := by
    rw [Resolution.talents, Resolution.talents, Resolution.pruned, List.map_map]
    refine List.map_congr_left fun settling _ => ?_
    show (settling.pruned rules).target.id = _
    rw [settling.target_pruned, Talent.id_pruned]
  have hreplacements : (life.resolution.pruned rules).replacements =
      life.resolution.replacements := by
    rw [Resolution.replacements, Resolution.replacements, Resolution.pruned, List.filterMap_map]
    exact List.filterMap_congr fun settling _ => settling.replacement?_pruned
  have hinfos : (rules.pruned.known life.resolution.talents).map Talent.info =
      (rules.known life.resolution.talents).map Talent.info := by
    rw [Ruleset.known_pruned, List.map_map]
    rfl
  have hsummary : summarize rules.pruned life.closing.person life.resolution.talents =
      summarize rules life.closing.person life.resolution.talents := by
    rw [summarize, summarize, hinfos]
    rfl
  rw [ofLife, ofLife, Life.pruned, htrajectory, htriggered, htalents, hreplacements, hsummary]
  rfl

/-- **What never does anything is not missed.**  However the rules were loaded and merged, under the
pruned rules every life fails alike or shows the same session, and it leaves the same source. -/
theorem simulateWith_pruned (h : rules.Loaded) (request : Request) (source : Source) :
    simulateWith rules.pruned request source = simulateWith rules request source := by
  rw [simulateWith, simulateWith, live_pruned h.coherent.talents]
  rcases live rules request source with ⟨_ | life, source'⟩
  · rfl
  · simp only [Except.map, Session.ofLife_pruned]

/-! ## Overgrown rules -/

/-- A draft with unknown ids among the talents that are excluded, that replace and that are unlocked,
in the pool and after an event, with a weight of zero, and with an achievement for no checkpoint. -/
def overgrownDraft : Draft where
  talents := [("1", { exclude := some [9, 2], replacement := some ⟨[], [("9", 1)]⟩ }), ("2", {})]
  events := [("1", { noRandom := some true, followUp := some (.event 9) })]
  ages := [("0", { talents := some [9, 2], pool := some [.pair 9 1, .pair 1 0] })]
  achievements := [("5", { opportunity := some "never", condition := some "" })]
  settings := some { Settings.standard with
    terminalAge := 0, terminalAge_le := Range.zero_le_greatest }

/-- The rules of the draft. -/
def overgrownRules : Ruleset where
  talents := .ofList [
    (1, { Talent.ofName 1 "" with exclude := [9, 2], replacement := some ⟨[], [(9, 1)]⟩ }),
    (2, .ofName 2 "")]
  events := .ofList [
    (1, { Event.ofText 1 "" with noRandom := true, followUp := some (.event 9) })]
  ages := .ofList [(0, ⟨0, [9, 2], [⟨9, 1⟩, ⟨1, 0⟩]⟩)]
  achievements := .ofList [(5, ⟨5, "", "", 0, none, .ofText ""⟩)]
  rubrics := .empty
  settings := { Settings.standard with
    terminalAge := 0, terminalAge_le := Range.zero_le_greatest }

theorem build_overgrownDraft : overgrownDraft.build = .ok overgrownRules := by
  have hplain : TalentDraft.build "1" { exclude := some [9, 2] } =
      .ok { Talent.ofName 1 "" with exclude := [9, 2] } := rfl
  have hrule : ReplacementDraft.build 1 ⟨[], [("9", 1)]⟩ = .ok ⟨[], [(9, 1)]⟩ :=
    ReplacementDraft.build_of_pairwise .nil (.cons ⟨rfl, rfl⟩ .nil) .nil
      (List.pairwise_singleton _ _)
  have hfirst : TalentDraft.build "1"
      { exclude := some [9, 2], replacement := some ⟨[], [("9", 1)]⟩ } =
        .ok { Talent.ofName 1 "" with
          exclude := [9, 2], replacement := some ⟨[], [(9, 1)]⟩ } :=
    TalentDraft.build_of_replacement { exclude := some [9, 2] } hplain hrule
  have htalents : buildTable TalentDraft.build Talent.id overgrownDraft.talents =
      .ok overgrownRules.talents :=
    buildTable_eq_ok_iff.mpr ⟨_, .cons hfirst (.cons rfl .nil), rfl⟩
  exact Draft.build_eq_ok_iff.mpr ⟨rfl, htalents, rfl, rfl, rfl, rfl⟩

/-- Something is taken out of each table, and in the life that is left the second talent still gives
way to the first one and the event is still chosen. -/
theorem simulateWith_pruned_overgrown :
    overgrownRules.Loaded ∧
    overgrownRules.pruned.talents.find? 1 =
      some { Talent.ofName 1 "" with exclude := [2], replacement := some ⟨[], []⟩ } ∧
    overgrownRules.pruned.events.find? 1 = some { Event.ofText 1 "" with noRandom := true } ∧
    overgrownRules.pruned.ages.find? 0 = some ⟨0, [2], [⟨1, 0⟩]⟩ ∧
    overgrownRules.pruned.achievements.keys = [] ∧
    ∃ session source, simulateWith overgrownRules.pruned (Request.empty.withTalents [1])
        (.seeded 0) = (.ok session, source) ∧
      session.triggeredEvents = [1] ∧ session.summary.talents = [⟨1, "", "", 0⟩] := by
  have hloaded : overgrownRules.Loaded := .build build_overgrownDraft
  have hlive : ∃ session source, simulateWith overgrownRules (Request.empty.withTalents [1])
        (.seeded 0) = (.ok session, source) ∧
      session.triggeredEvents = [1] ∧ session.summary.talents = [⟨1, "", "", 0⟩] :=
    ⟨_, _, rfl, rfl, rfl⟩
  have hage : overgrownRules.pruned.ages.find? 0 = some ⟨0, [2], [⟨1, 0⟩]⟩ := by
    -- the entry needs no draw, so its weight does not matter
    have hcounts : PoolEntry.counts overgrownRules ⟨1, 0⟩ = true :=
      Bool.or_true (Source.drawable 0)
    have hpool : [PoolEntry.mk 1 0].filter (PoolEntry.counts overgrownRules) = [⟨1, 0⟩] :=
      List.filter_cons_of_pos hcounts
    exact congrArg (fun pool => some (AgeSlot.mk 0 [2] pool)) hpool
  rw [simulateWith_pruned hloaded]
  exact ⟨hloaded, rfl, rfl, hage, rfl, hlive⟩

end LifeCourse
