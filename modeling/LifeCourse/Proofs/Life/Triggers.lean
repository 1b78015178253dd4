import LifeCourse.Proofs.Life.Chronicle
import LifeCourse.Proofs.Life.Clock
import LifeCourse.Proofs.Life.TalentSet
import Mathlib.Algebra.BigOperators.Ring.Finset

/-!
# How often talents fire

A talent fires on two paths, when the talents are settled and in the pass of a year, and each path
asks by itself whether the talent is spent.  The chronicle of a life does not tell the two apart: an
incident in which a talent fires counts it, has its effect and comes only while the talent is not
spent.  So two inductions over the chronicle say all that the counts are for:

* the count of a talent is the number of times it has fired so far (`Follows.count_eq`);
* it does not pass the limit of the talent (`Follows.preserves` with `Standing.Limited.changes`).

Limits fit 32 bits, since a draft cuts them off there, and with them the counts.  Where a life fires
its talents is read off the chronicle, which is put together from settlings and years
(`firedIn_chronicle`).
-/

namespace LifeCourse

variable {rules : Ruleset}

/-! ## Counting -/

/-- The id of the talent that fires in an incident. -/
def Incident.fired? : Incident → Option Int
  | .fire talent => some talent.id
  | _ => none

/-- The ids of the talents that fire in some episodes, one after another. -/
def firedIn (episodes : List Episode) : List Int :=
  episodes.filterMap fun episode => episode.incident.fired?

/-- What an incident does to the counts. -/
theorem Incident.Changes.count_eq {before after : Standing} {incident : Incident}
    (h : incident.Changes rules before after) (id : Int) :
    after.tracker.count id =
      before.tracker.count id + (incident.fired?.toList).count id := by
  cases incident with
  | fire talent =>
    obtain ⟨-, -, -, source, rfl⟩ := h
    have hcount := Tracker.count_countFiring before.tracker talent.id id
    by_cases hself : id = talent.id
    · rw [hself, if_pos rfl] at hcount
      rw [hself]
      simpa [fired?] using hcount
    · rw [if_neg hself] at hcount
      have hother : ¬talent.id = id := fun heq => hself heq.symm
      simpa [fired?, hother] using hcount
  | happen event =>
    obtain ⟨-, source, rfl⟩ := h
    rfl
  | turn | join | achieve =>
    subst h
    rfl

/-- **A count is the number of times the talent has fired.** -/
theorem Follows.count_eq {before last : Standing} {episodes : List Episode}
    (h : Follows rules before episodes last) (id : Int) :
    last.tracker.count id = before.tracker.count id + (firedIn episodes).count id := by
  induction h with
  | done => rfl
  | @cons before last episode episodes hchanges _ ih =>
    have hcons : firedIn (episode :: episodes) =
        episode.incident.fired?.toList ++ firedIn episodes := by
      rw [firedIn, List.filterMap_cons]
      cases episode.incident.fired? <;> rfl
    rw [ih, hchanges.count_eq id, hcons, List.count_append, Nat.add_assoc]

/-- No talent of the rules has fired more often than it may. -/
def Standing.Limited (rules : Ruleset) (standing : Standing) : Prop :=
  ∀ id talent, rules.talents.find? id = some talent →
    standing.tracker.count id ≤ talent.maxTriggers

/-- **No incident brings a count past the limit.** -/
theorem Standing.Limited.changes {before after : Standing} {incident : Incident}
    (h : incident.Changes rules before after) (hlimited : before.Limited rules) :
    after.Limited rules := by
  intro id talent hfind
  have hle := hlimited id talent hfind
  rw [h.count_eq id]
  cases incident with
  | fire fired =>
    obtain ⟨-, hfired, hspent, -⟩ := h
    by_cases hself : fired.id = id
    · subst hself
      obtain rfl := Option.some.inj (hfired.symm.trans hfind)
      have hnot : ¬fired.maxTriggers ≤ before.tracker.count fired.id :=
        of_decide_eq_false hspent
      have hone : (Incident.fire fired).fired?.toList.count fired.id = 1 := by
        simp [Incident.fired?]
      omega
    · have hzero : (Incident.fire fired).fired?.toList.count id = 0 := by
        simp [Incident.fired?, hself]
      omega
  | turn | join | happen | achieve => exact hle

/-! ## Counters of 32 bits -/

/-- The limit of a talent of loaded rules fits 32 bits. -/
theorem maxTriggers_le (hloaded : rules.Loaded) :
    ∀ id talent, rules.talents.find? id = some talent → talent.maxTriggers ≤ 4294967295 := by
  refine hloaded.forall_talent fun key draft talent h => ?_
  obtain ⟨id, -, h⟩ := Outcome.bind_eq_ok_iff.mp h
  obtain ⟨replacement, -, h⟩ := Outcome.bind_eq_ok_iff.mp h
  obtain rfl := Except.ok.inj h
  show (draft.maxTriggers.map triggerLimit).getD 1 ≤ 4294967295
  cases draft.maxTriggers with
  | none => decide
  | some limit =>
    show (min limit greatestLimit).toNat ≤ 4294967295
    unfold greatestLimit
    omega

/-- A counter of 32 bits for the talents that fire with an id. -/
def counter (id : Int) (fired : List Int) : UInt32 :=
  fired.foldl (fun n other => if other = id then n + 1 else n) 0

theorem toNat_foldl_counter (id : Int) (fired : List Int) (n : UInt32) :
    (fired.foldl (fun n other => if other = id then n + 1 else n) n).toNat =
      (n.toNat + fired.count id) % 4294967296 := by
  induction fired generalizing n with
  | nil => exact (Nat.mod_eq_of_lt n.toNat_lt).symm
  | cons other rest ih =>
    rw [List.foldl_cons, ih]
    by_cases hself : other = id
    · subst hself
      rw [if_pos rfl, List.count_cons_self, UInt32.toNat_add, UInt32.toNat_one]
      omega
    · rw [if_neg hself, List.count_cons_of_ne hself]

/-- A counter shows the count, as long as this fits 32 bits. -/
theorem toNat_counter {id : Int} {fired : List Int} (h : fired.count id ≤ 4294967295) :
    (counter id fired).toNat = fired.count id := by
  rw [counter, toNat_foldl_counter]
  show (0 + fired.count id) % 4294967296 = fired.count id
  omega

/-! ## Where talents fire -/

/-- The ids of the talents that fire in a year. -/
def Year.fired (year : Year) : List Int :=
  year.firings.map fun firing => firing.talent.id

/-- The ids of the talents that fire when the talents are settled. -/
def Life.firedAtOnce (life : Life) : List Int :=
  (life.resolution.settlings.filter Settling.fired).map fun settling => settling.target.id

theorem firedIn_unlockEpisodes (before : Standing) (id : Int) :
    firedIn (before.unlockEpisodes rules id) = [] := by
  unfold Standing.unlockEpisodes
  split <;> rfl

theorem firedIn_achievementEpisodes (opportunity : Opportunity) (before : Standing)
    (achievement : Achievement) :
    firedIn (before.achievementEpisodes opportunity achievement) = [] := by
  unfold Standing.achievementEpisodes
  split <;> rfl

/-- In a year the talents fire that the year records. -/
theorem firedIn_year (before : Standing) (year : Year) :
    firedIn (year.episodes rules before) = year.fired := by
  have hfire : ∀ (before : Standing) (firing : Firing),
      firedIn (before.firingEpisodes firing) = [firing.talent.id] := fun _ _ => rfl
  have hlink : ∀ (before : Standing) (link : Link), firedIn (before.linkEpisodes link) = [] :=
    fun _ _ => rfl
  show List.filterMap _ (_ ++ _ ++ _ ++ _) = _
  rw [List.filterMap_append, List.filterMap_append, List.filterMap_append,
    filterMap_episodesOf_eq_nil firedIn_unlockEpisodes, filterMap_episodesOf hfire,
    filterMap_episodesOf_eq_nil hlink,
    filterMap_episodesOf_eq_nil (firedIn_achievementEpisodes .trajectory), List.nil_append,
    List.append_nil, List.append_nil, Year.fired, List.map_eq_flatMap]

/-- **In a life, talents fire when they are settled, and then in its years.** -/
theorem firedIn_chronicle (life : Life) (rules : Ruleset) (request : Request) :
    firedIn (life.chronicle rules request) = life.firedAtOnce ++ life.years.flatMap Year.fired := by
  have hsettle : ∀ (before : Standing) (settling : Settling),
      firedIn (settling.episodes before) =
        if settling.fired then [settling.target.id] else [] := by
    intro before settling
    unfold Settling.episodes
    cases settling.fired <;> rfl
  have hsettled : life.firedAtOnce = life.resolution.settlings.flatMap fun settling =>
      if settling.fired then [settling.target.id] else [] := by
    rw [Life.firedAtOnce]
    induction life.resolution.settlings with
    | nil => rfl
    | cons settling rest ih =>
      rw [List.flatMap_cons, ← ih, List.filter_cons]
      cases settling.fired <;> rfl
  rw [Life.chronicle, firedIn, List.filterMap_append, List.filterMap_append, List.filterMap_append,
    filterMap_episodesOf hsettle, filterMap_episodesOf_eq_nil (firedIn_achievementEpisodes .start),
    filterMap_episodesOf firedIn_year,
    filterMap_episodesOf_eq_nil (firedIn_achievementEpisodes .summary), List.append_nil,
    List.append_nil, hsettled]

/-- A talent fires at most once when the talents are settled. -/
theorem nodup_firedAtOnce (hkeyed : rules.talents.Keyed Talent.id) {request : Request}
    {source source' : Source} {life : Life}
    (hlive : live rules request source = (.ok life, source')) : life.firedAtOnce.Nodup := by
  obtain ⟨source₁, hresolve, -, -, -⟩ := live_eq_ok hlive
  obtain ⟨hactive, hharmony, -⟩ :=
    talents_of_resolve hkeyed (request.person_eq rules.settings).1 hresolve
  have hnodup := hharmony.nodup
  rw [hactive] at hnodup
  exact hnodup.sublist (List.filter_sublist.map _)

/-- A pass goes through its talents once. -/
theorem fired_activateEach_sublist (hkeyed : rules.talents.Keyed Talent.id) (ids : List Int)
    (tracker : Tracker) (person : Person) (source : Source) :
    ((Tracker.activateEach rules ids tracker person source).1.map
      fun firing => firing.talent.id).Sublist ids := by
  induction ids generalizing tracker person source with
  | nil => exact .slnil
  | cons id rest ih =>
    rw [Tracker.activateEach]
    split
    · exact (ih _ _ _).cons id
    · rename_i talent hfind
      split
      · exact (ih _ _ _).cons id
      · obtain rfl := hkeyed id talent hfind
        exact (ih _ _ _).cons_cons talent.id

/-- A talent fires at most once in a year. -/
theorem nodup_fired_of_liveYear (hkeyed : rules.talents.Keyed Talent.id) {isLast : Bool}
    {before : Standing} {source source' : Source} {year : Year} {settled : List Int}
    (h : liveYear rules isLast before source = (year, source'))
    (hsound : before.Sound rules settled) : year.fired.Nodup := by
  obtain ⟨tracker, person, source₁, hfire, -, -⟩ := liveYear_parts h
  have hturned : (Year.turned before).Sound rules settled := hsound.step hkeyed (.turn before)
  have hpassage : Standing.Passage rules (Year.turned before) _ (year.unlocked rules before) :=
    Standing.passage_trail (fun s id _ => Standing.reflGen_unlockOne s id) _
  have hunlocked := hpassage.last_of_step (fun hstep hs => hs.step hkeyed hstep) hturned
  have hsublist := fired_activateEach_sublist hkeyed (year.unlocked rules before).tracker.active
    (year.unlocked rules before).tracker (year.unlocked rules before).person source
  rw [Tracker.activate] at hfire
  rw [hfire] at hsublist
  exact hunlocked.harmony.nodup.sublist hsublist

/-- In no year of a life does a talent fire more than once. -/
theorem nodup_fired_of_live (hkeyed : rules.talents.Keyed Talent.id) {request : Request}
    {source source' : Source} {life : Life}
    (hlive : live rules request source = (.ok life, source')) :
    ∀ year ∈ life.years, year.fired.Nodup := by
  obtain ⟨source₁, hresolve, hopening, hyears, -⟩ := live_eq_ok hlive
  obtain ⟨hactive, hharmony, hlisted⟩ :=
    talents_of_resolve hkeyed (request.person_eq rules.settings).1 hresolve
  have hstep : ∀ {s s' : Standing}, Standing.Step rules s s' →
      s.Sound rules life.resolution.talents → s'.Sound rules life.resolution.talents :=
    fun hstep hs => hs.step hkeyed hstep
  have hsettled : (life.settled request.achieved).Sound rules life.resolution.talents :=
    ⟨hharmony, hlisted, by rw [← hactive]; exact List.prefix_rfl⟩
  have hopen : life.opening.Sound rules life.resolution.talents := by
    rw [hopening]
    exact (Standing.passage_check rules .start _).last_of_step hstep hsettled
  refine hyears.forall_of_liveYear (fun hyear hbefore => ⟨?_, ?_⟩) hopen
  · exact nodup_fired_of_liveYear hkeyed hyear hbefore
  · exact (passage_liveYear hyear).1.last_of_step hstep hbefore

/-! ## The sum of all counts -/

/-- Only talents of the rules fire. -/
theorem Follows.mem_keys_of_mem_firedIn {before last : Standing} {episodes : List Episode}
    (h : Follows rules before episodes last) :
    ∀ id ∈ firedIn episodes, id ∈ rules.talents.keys := by
  intro id hmem
  obtain ⟨episode, hepisode, hfired⟩ := List.mem_filterMap.mp hmem
  refine h.forall_mem (P := fun episode => episode.incident.fired? = some id →
    id ∈ rules.talents.keys) (fun {incident _ _} hchanges hfired => ?_) episode hepisode hfired
  cases incident with
  | fire talent =>
    obtain rfl := Option.some.inj hfired
    obtain ⟨-, hfind, -⟩ := hchanges
    exact Table.mem_keys_of_find? hfind
  | turn | join | happen | achieve => cases hfired

/-- Items counted key by key. -/
theorem sum_count_eq_length {keys fired : List Int} (hkeys : keys.Nodup)
    (hfired : ∀ id ∈ fired, id ∈ keys) :
    (keys.map fun id => fired.count id).sum = fired.length := by
  have hsum : ∑ id ∈ keys.toFinset, (fired : Multiset Int).count id =
      (fired : Multiset Int).card :=
    Multiset.sum_count_eq_card fun id hmem => List.mem_toFinset.mpr (hfired id hmem)
  rw [List.sum_toFinset _ hkeys, Multiset.coe_card] at hsum
  simpa only [Multiset.coe_count] using hsum

/-- The lines of talents that a life shows are the talents that fire in its years. -/
theorem countP_talent_lines (rules : Ruleset) (life : Life) :
    ((Session.ofLife rules life).trajectory.flatMap Entry.content).countP
        (fun line => line.kind = .talent) =
      (life.years.flatMap Year.fired).length := by
  have hyear : ∀ year : Year,
      (Entry.ofYear year).content.countP (fun line => line.kind = .talent) = year.fired.length := by
    intro year
    have htalents : (year.firings.map fun firing => Line.ofTalent firing.talent.info).countP
        (fun line => line.kind = .talent) = year.firings.length := by
      rw [List.countP_map]
      exact List.countP_eq_length.mpr fun _ _ => rfl
    have hlinks : (year.chain.map Line.ofLink).countP (fun line => line.kind = .talent) = 0 := by
      rw [List.countP_map]
      exact List.countP_eq_zero.mpr fun _ _ h => by cases h
    have hcontent : (Entry.ofYear year).content =
        (year.firings.map fun firing => Line.ofTalent firing.talent.info) ++
          year.chain.map Line.ofLink := rfl
    rw [hcontent, List.countP_append, htalents, hlinks, Year.fired, List.length_map, Nat.add_zero]
  show ((life.years.map Entry.ofYear).flatMap Entry.content).countP _ = _
  rw [List.flatMap_map, List.countP_flatMap, List.length_flatMap]
  exact congrArg List.sum (List.map_congr_left fun year _ => hyear year)

/-! ## The law of the counts -/

/-- **How often talents fire.**  From the person of the request to its closing, a life follows its
chronicle, in which a talent has its effect exactly when it fires.  At every moment the count of a
talent is the number of times it has fired so far.  It does not pass the limit of the talent, and a
counter of 32 bits shows it.  Talents fire when they are settled and in the passes of the years, at
most once each time, and in the end all counts add up to the talents that fired at once and the lines
of talents that the life shows. -/
theorem triggers_of_live {request : Request} {source source' : Source} {life : Life}
    (hloaded : rules.Loaded) (hlive : live rules request source = (.ok life, source')) :
    Follows rules (request.standing rules.settings) (life.chronicle rules request) life.closing ∧
    (∀ past, past <+: life.chronicle rules request → ∀ id,
      ((request.standing rules.settings).after past).tracker.count id = (firedIn past).count id ∧
      ∀ talent, rules.talents.find? id = some talent →
        (firedIn past).count id ≤ talent.maxTriggers ∧
        talent.maxTriggers ≤ 4294967295 ∧
        (counter id (firedIn past)).toNat = (firedIn past).count id) ∧
    firedIn (life.chronicle rules request) = life.firedAtOnce ++ life.years.flatMap Year.fired ∧
    life.firedAtOnce.Nodup ∧
    (∀ year ∈ life.years, year.fired.Nodup) ∧
    (rules.talents.keys.map fun id => life.closing.tracker.count id).sum =
      life.resolution.settlings.countP Settling.fired +
        ((Session.ofLife rules life).trajectory.flatMap Entry.content).countP
          (fun line => line.kind = .talent) := by
  have hkeyed := hloaded.coherent.talents
  have hfollows := follows_of_live hkeyed hlive
  have hnone : ∀ id, (request.standing rules.settings).tracker.count id = 0 := fun _ => rfl
  refine ⟨hfollows, fun past hpast id => ?_, firedIn_chronicle life rules request,
    nodup_firedAtOnce hkeyed hlive, nodup_fired_of_live hkeyed hlive, ?_⟩
  · have hsofar := hfollows.of_prefix hpast
    have hcount := hsofar.count_eq id
    rw [hnone, Nat.zero_add] at hcount
    refine ⟨hcount, fun talent hfind => ?_⟩
    have hstart : (request.standing rules.settings).Limited rules := fun _ _ _ => Nat.zero_le _
    have hlimited := hsofar.preserves (fun hchanges hs => hs.changes hchanges) hstart
    have hle := hlimited id talent hfind
    rw [hcount] at hle
    have hfits := maxTriggers_le hloaded id talent hfind
    exact ⟨hle, hfits, toNat_counter (hle.trans hfits)⟩
  · have hclosing : ∀ id, life.closing.tracker.count id =
        (firedIn (life.chronicle rules request)).count id := by
      intro id
      rw [hfollows.count_eq id, hnone, Nat.zero_add]
    simp only [hclosing]
    rw [sum_count_eq_length rules.talents.nodup_keys hfollows.mem_keys_of_mem_firedIn, firedIn_chronicle,
      List.length_append, countP_talent_lines, Life.firedAtOnce, List.length_map,
      List.countP_eq_length_filter]

/-! ## A talent that fires twice -/

/-- A draft of rules with one talent, which may fire twice and earns one. -/
def eagerDraft : Draft where
  talents := [("1", { maxTriggers := some 2, effect := some (.only .money 1) })]
  settings := some { Settings.standard with terminalAge := 2, terminalAge_le := by decide }

/-- The rules of the draft. -/
def eagerRules : Ruleset where
  talents := .ofList [(1, { Talent.ofName 1 "" with
    maxTriggers := 2, effect := some (.only .money 1) })]
  events := .empty
  ages := .empty
  achievements := .empty
  rubrics := .empty
  settings := { Settings.standard with terminalAge := 2, terminalAge_le := by decide }

/-- The talent fires when it is settled and in the first of three years, and then no more. -/
theorem triggers_of_live_eager : eagerDraft.build = .ok eagerRules ∧
    ∃ life source', live eagerRules (Request.empty.withTalents [1]) (.seeded 0) =
        (.ok life, source') ∧
      life.years.map Year.fired = [[1], [], []] ∧
      firedIn (life.chronicle eagerRules (Request.empty.withTalents [1])) = [1, 1] ∧
      (eagerRules.talents.keys.map fun id => life.closing.tracker.count id).sum = 2 := by
  have hbuild : eagerDraft.build = .ok eagerRules := rfl
  have hlive : ∃ life source', live eagerRules (Request.empty.withTalents [1]) (.seeded 0) =
      (.ok life, source') ∧ life.firedAtOnce = [1] ∧ life.years.map Year.fired = [[1], [], []] ∧
      life.resolution.settlings.countP Settling.fired = 1 ∧
      ((Session.ofLife eagerRules life).trajectory.flatMap Entry.content).countP
        (fun line => line.kind = .talent) = 1 := ⟨_, _, rfl, rfl, rfl, rfl, rfl⟩
  obtain ⟨life, source', hlive, honce, hyears, hsettled, hlines⟩ := hlive
  obtain ⟨-, -, hfired, -, -, hsum⟩ := triggers_of_live (.build hbuild) hlive
  refine ⟨hbuild, life, source', hlive, hyears, ?_, ?_⟩
  · rw [hfired, honce, List.flatMap_def, hyears]
    rfl
  · rw [hsum, hsettled, hlines]

end LifeCourse
