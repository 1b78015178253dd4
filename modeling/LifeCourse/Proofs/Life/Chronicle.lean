import LifeCourse.Proofs.Life.Moments
import LifeCourse.Proofs.Life.Settling

/-!
# The chronicle of a life

The moments of a life say how it stood, and begin when its talents are settled.  The chronicle also
says what happened from one of them to the next, and it begins with the person that the request asks
for.  It lists incidents, each with the standing after it, and is put together from what the life
records (`Life.chronicle`).

## What an incident says

`Incident.Changes` gives, for each kind of incident, the standing after it in terms of the one
before.  A chronicle that `Follows` the rules has an incident of the right kind at every place, so
a law about what happened so far is one induction over `Follows`, with a case for each incident.
That the chronicle of every life follows the rules is `follows_of_live`.  The functions that live a
life are opened here once more, because moments do not name what happened.

## What is left out of an incident

A firing and an event may draw a stat.  The life does not record its sources, so an incident only
says that there is one with which the effect came out as it did.
-/

namespace LifeCourse

variable {rules : Ruleset}

/-! ## Incidents -/

/-- What can happen in a life. -/
inductive Incident where
  /-- A year turns. -/
  | turn
  /-- A talent joins. -/
  | join (id : Int)
  /-- A talent fires. -/
  | fire (talent : Talent)
  /-- An event happens. -/
  | happen (id : Int) (event : Event)
  /-- An achievement is unlocked. -/
  | achieve (achievement : Achievement)

/-- The standing when a talent has joined. -/
def Standing.join (standing : Standing) (id : Int) : Standing :=
  { standing with
    tracker := standing.tracker.add id
    person := standing.person.addTalent id }

/-- What an incident makes of a standing. -/
def Incident.Changes (rules : Ruleset) (before after : Standing) : Incident → Prop
  | .turn => after = { before with person := before.person.nextYear }
  | .join id => after = before.join id
  | .fire talent =>
    talent.id ∈ before.tracker.active ∧ rules.talents.find? talent.id = some talent ∧
      before.tracker.isSpent talent = false ∧
      ∃ source, after = { before with
        tracker := before.tracker.countFiring talent.id
        person := (before.person.applyIfAny talent.effect source).1 }
  | .happen id event =>
    rules.events.find? id = some event ∧
      ∃ source, after = { before with
        person := ((before.person.recordEvent id).applyIfAny event.effect source).1 }
  | .achieve achievement =>
    after = { before with
      ledger := ⟨before.ledger.known ++ [achievement.id],
        before.ledger.unlocked ++ [achievement]⟩
      person := before.person.addAchievement achievement.id }

/-- An incident, and how the life stands after it. -/
structure Episode where
  incident : Incident
  standing : Standing

/-- How a life stands after some episodes. -/
def Standing.after (standing : Standing) (episodes : List Episode) : Standing :=
  (episodes.getLast?.map Episode.standing).getD standing

theorem Standing.after_cons (standing : Standing) (episode : Episode) (episodes : List Episode) :
    standing.after (episode :: episodes) = episode.standing.after episodes := by
  cases episodes with
  | nil => rfl
  | cons next rest => rw [after, after, List.getLast?_cons_cons, List.getLast?_cons]; rfl

/-- Episodes one after another, each an incident of the rules. -/
inductive Follows (rules : Ruleset) : Standing → List Episode → Standing → Prop where
  | done (standing : Standing) : Follows rules standing [] standing
  | cons {before last : Standing} {episode : Episode} {episodes : List Episode}
      (hchanges : episode.incident.Changes rules before episode.standing)
      (hrest : Follows rules episode.standing episodes last) :
      Follows rules before (episode :: episodes) last

namespace Follows

variable {before middle last : Standing} {episodes episodes' : List Episode}

theorem append (h : Follows rules before episodes middle)
    (h' : Follows rules middle episodes' last) :
    Follows rules before (episodes ++ episodes') last := by
  induction h with
  | done => exact h'
  | cons hchanges _ ih => exact .cons hchanges (ih h')

theorem single {episode : Episode}
    (hchanges : episode.incident.Changes rules before episode.standing) :
    Follows rules before [episode] episode.standing :=
  .cons hchanges (.done _)

/-- **The first of some episodes follow the rules as well.** -/
theorem of_prefix {past : List Episode} (h : Follows rules before episodes last)
    (hpast : past <+: episodes) : Follows rules before past (before.after past) := by
  induction h generalizing past with
  | done before =>
    rw [List.prefix_nil.mp hpast]
    exact .done before
  | cons hchanges _ ih =>
    cases past with
    | nil => exact .done _
    | cons episode past =>
      obtain ⟨rfl, hrest⟩ := List.cons_prefix_cons.mp hpast
      rw [Standing.after_cons]
      exact .cons hchanges (ih hrest)

/-- Every incident changes the standing to which the episodes before it have led. -/
theorem changes_of_append {past : List Episode} {episode : Episode}
    (h : Follows rules before (past ++ episode :: episodes) last) :
    episode.incident.Changes rules (before.after past) episode.standing := by
  induction past generalizing before with
  | nil =>
    cases h with
    | cons hchanges _ => exact hchanges
  | cons first past ih =>
    cases h with
    | cons _ hrest =>
      rw [Standing.after_cons]
      exact ih hrest

/-- **What every incident preserves holds after every episode.** -/
theorem preserves {Inv : Standing → Prop}
    (hInv : ∀ {incident s s'}, Incident.Changes rules s s' incident → Inv s → Inv s')
    (h : Follows rules before episodes last) (hstart : Inv before) : Inv last := by
  induction h with
  | done => exact hstart
  | cons hchanges _ ih => exact ih (hInv hchanges hstart)

/-- **What holds after every incident holds of every episode.** -/
theorem forall_mem {P : Episode → Prop}
    (hP : ∀ {incident s s'}, Incident.Changes rules s s' incident → P ⟨incident, s'⟩)
    (h : Follows rules before episodes last) : ∀ episode ∈ episodes, P episode := by
  induction h with
  | done => exact fun _ hmem => absurd hmem List.not_mem_nil
  | cons hchanges _ ih => exact List.forall_mem_cons.mpr ⟨hP hchanges, ih⟩

end Follows

/-! ## One thing after another -/

/-- The episodes of the items of a list, each told from the standing to which the items before it
lead. -/
def episodesOf {α : Type} (tell : Standing → α → List Episode) (step : Standing → α → Standing) :
    Standing → List α → List Episode
  | _, [] => []
  | before, a :: as => tell before a ++ episodesOf tell step (step before a) as

theorem follows_episodesOf {α : Type} {tell : Standing → α → List Episode}
    {step : Standing → α → Standing} {as : List α}
    (h : ∀ before, ∀ a ∈ as, Follows rules before (tell before a) (step before a))
    (before : Standing) :
    Follows rules before (episodesOf tell step before as) (as.foldl step before) := by
  induction as generalizing before with
  | nil => exact .done before
  | cons a as ih =>
    refine (h before a List.mem_cons_self).append (ih (fun s b hb => ?_) _)
    exact h s b (List.mem_cons_of_mem a hb)

/-- What is found in episodes told one after another, if it does not matter where those of an item
begin. -/
theorem filterMap_episodesOf {α β : Type} {tell : Standing → α → List Episode}
    {step : Standing → α → Standing} {find : Episode → Option β} {found : α → List β}
    (h : ∀ before a, (tell before a).filterMap find = found a) (before : Standing) (as : List α) :
    (episodesOf tell step before as).filterMap find = as.flatMap found := by
  induction as generalizing before with
  | nil => rfl
  | cons a as ih => rw [episodesOf, List.filterMap_append, h, ih, List.flatMap_cons]

/-- Episodes in which nothing is found. -/
theorem filterMap_episodesOf_eq_nil {α β : Type} {tell : Standing → α → List Episode}
    {step : Standing → α → Standing} {find : Episode → Option β}
    (h : ∀ before a, (tell before a).filterMap find = []) (before : Standing) (as : List α) :
    (episodesOf tell step before as).filterMap find = [] := by
  rw [filterMap_episodesOf h, List.flatMap_eq_nil_iff]
  exact fun _ _ => rfl

/-! ## Settling -/

/-- The standing when a survivor is settled. -/
def Standing.afterSettling (standing : Standing) (settling : Settling) : Standing :=
  let joined := standing.join settling.target.id
  if settling.fired then joined.afterFiring ⟨settling.target, settling.person⟩ else joined

/-- The talent at the end of the walk joins, and may fire. -/
def Settling.episodes (before : Standing) (settling : Settling) : List Episode :=
  let joined := before.join settling.target.id
  ⟨.join settling.target.id, joined⟩ ::
    if settling.fired then
      [⟨.fire settling.target, joined.afterFiring ⟨settling.target, settling.person⟩⟩]
    else []

/-- How a life stands while its talents are settled. -/
def SettlingState.standing (state : SettlingState) (ledger : Ledger) : Standing :=
  ⟨state.person, state.tracker, ledger⟩

theorem follows_settle (hkeyed : rules.talents.Keyed Talent.id) {survivor : Talent}
    (hsurvivor : survivor ∈ rules.talents.values) {state state' : SettlingState}
    {settling : Settling} (h : settle rules survivor state = (settling, state'))
    (ledger : Ledger) :
    Follows rules (state.standing ledger) (settling.episodes (state.standing ledger))
        (state'.standing ledger) ∧
      (state.standing ledger).afterSettling settling = state'.standing ledger := by
  have hfind := hkeyed.find?_of_mem_values (target_mem_values hsurvivor h)
  have hjoin : Incident.Changes rules (state.standing ledger)
      ((state.standing ledger).join settling.target.id) (.join settling.target.id) := rfl
  obtain ⟨hafter, hcases⟩ := settle_cases h
  rcases hcases with ⟨hfired, htracker, hperson⟩ | ⟨hfired, hspent, htracker, source, hperson⟩
  · have hjoined : (state.standing ledger).join settling.target.id = state'.standing ledger := by
      rw [SettlingState.standing, SettlingState.standing, htracker, hperson]
      rfl
    rw [Settling.episodes, Standing.afterSettling, hfired, ← hjoined]
    exact ⟨.single hjoin, rfl⟩
  · have hdone : ((state.standing ledger).join settling.target.id).afterFiring
        ⟨settling.target, settling.person⟩ = state'.standing ledger := by
      rw [SettlingState.standing, SettlingState.standing, htracker, ← hafter]
      rfl
    have hfire : Incident.Changes rules ((state.standing ledger).join settling.target.id)
        (state'.standing ledger) (.fire settling.target) := by
      refine ⟨?_, hfind, hspent, source, ?_⟩
      · exact List.mem_append_right _ (List.mem_singleton_self _)
      · rw [SettlingState.standing, htracker, hperson]
        rfl
    rw [Settling.episodes, Standing.afterSettling, hfired, hdone]
    exact ⟨.cons hjoin (.single hfire), rfl⟩

theorem follows_settleEach (hkeyed : rules.talents.Keyed Talent.id) {coming : List Talent}
    (hcoming : ∀ talent ∈ coming, talent ∈ rules.talents.values) (state : SettlingState)
    (ledger : Ledger) :
    Follows rules (state.standing ledger)
        (episodesOf Settling.episodes Standing.afterSettling (state.standing ledger)
          (settleEach rules coming state).1)
        ((settleEach rules coming state).2.standing ledger) := by
  induction coming generalizing state with
  | nil => exact .done _
  | cons survivor rest ih =>
    obtain ⟨hsurvivor, hrest⟩ := List.forall_mem_cons.mp hcoming
    rcases hsettle : settle rules survivor state with ⟨settling, state'⟩
    obtain ⟨hfollows, hafter⟩ := follows_settle hkeyed hsurvivor hsettle ledger
    rw [settleEach_cons, hsettle, episodesOf, hafter]
    exact hfollows.append (ih hrest state')

/-! ## A year -/

/-- Whether a talent of an age joins those of a life. -/
def Tracker.takesIn (rules : Ruleset) (tracker : Tracker) (id : Int) : Bool :=
  !tracker.active.contains id && (rules.talents.find? id).any (tracker.admits rules)

theorem Tracker.unlockOne_eq (rules : Ruleset) (state : Tracker × Person) (id : Int) :
    unlockOne rules state id =
      if state.1.takesIn rules id then (state.1.add id, state.2.addTalent id) else state := by
  obtain ⟨tracker, person⟩ := state
  rw [unlockOne, takesIn]
  by_cases hactive : tracker.active.contains id = true
  · rw [if_pos hactive, hactive]
    rfl
  · rw [if_neg hactive, Bool.eq_false_iff.mpr hactive]
    cases rules.talents.find? id <;> rfl

namespace Standing

/-- A talent of an age joins, if it may. -/
def unlockEpisodes (rules : Ruleset) (standing : Standing) (id : Int) : List Episode :=
  if standing.tracker.takesIn rules id then [⟨.join id, standing.unlockOne rules id⟩] else []

/-- A talent fires. -/
def firingEpisodes (standing : Standing) (firing : Firing) : List Episode :=
  [⟨.fire firing.talent, standing.afterFiring firing⟩]

/-- An event happens. -/
def linkEpisodes (standing : Standing) (link : Link) : List Episode :=
  [⟨.happen link.id link.event, standing.afterLink link⟩]

/-- An achievement is unlocked, if it is met. -/
def achievementEpisodes (opportunity : Opportunity) (standing : Standing)
    (achievement : Achievement) : List Episode :=
  if standing.ledger.unlocks opportunity achievement standing.person then
    [⟨.achieve achievement, standing.consider opportunity achievement⟩]
  else []

theorem follows_unlockEpisodes (standing : Standing) (id : Int) :
    Follows rules standing (standing.unlockEpisodes rules id) (standing.unlockOne rules id) := by
  unfold unlockEpisodes unlockOne
  rw [Tracker.unlockOne_eq]
  split
  · exact .single rfl
  · exact .done standing

theorem follows_achievementEpisodes (opportunity : Opportunity) (standing : Standing)
    (achievement : Achievement) :
    Follows rules standing (standing.achievementEpisodes opportunity achievement)
      (standing.consider opportunity achievement) := by
  unfold achievementEpisodes consider Ledger.consider
  simp only
  split
  · exact .single rfl
  · exact .done standing

/-- The talents that fire, one after another. -/
theorem follows_activateEach (hkeyed : rules.talents.Keyed Talent.id) (ids : List Int)
    (standing : Standing) (source : Source) (hactive : ∀ id ∈ ids, id ∈ standing.tracker.active) :
    Follows rules standing
      (episodesOf firingEpisodes afterFiring standing
        (Tracker.activateEach rules ids standing.tracker standing.person source).1)
      { standing with
        tracker := (Tracker.activateEach rules ids standing.tracker standing.person source).2.1
        person :=
          (Tracker.activateEach rules ids standing.tracker standing.person source).2.2.1 } := by
  induction ids generalizing standing source with
  | nil => exact .done standing
  | cons id ids ih =>
    obtain ⟨hid, hrest⟩ := List.forall_mem_cons.mp hactive
    rw [Tracker.activateEach]
    split
    · exact ih standing source hrest
    · rename_i talent hfind
      split
      · exact ih standing source hrest
      · rename_i hfires
        obtain rfl := hkeyed id talent hfind
        have hspent : standing.tracker.isSpent talent = false := by
          simp only [Bool.or_eq_true, not_or, Bool.not_eq_true] at hfires
          exact hfires.1
        have hfire : standing.tracker.fire talent standing.person source =
            (standing.tracker.countFiring talent.id,
              standing.person.applyIfAny talent.effect source) :=
          if_neg (Bool.eq_false_iff.mp hspent)
        rw [hfire]
        exact .cons ⟨hid, hfind, hspent, source, rfl⟩ (ih { standing with
          tracker := standing.tracker.countFiring talent.id
          person := (standing.person.applyIfAny talent.effect source).1 } _ hrest)

/-- The talents that fire in a year, one after another. -/
theorem follows_activate (hkeyed : rules.talents.Keyed Talent.id) (standing : Standing)
    (source : Source) :
    Follows rules standing
      (episodesOf firingEpisodes afterFiring standing
        (standing.tracker.activate rules standing.person source).1)
      { standing with
        tracker := (standing.tracker.activate rules standing.person source).2.1
        person := (standing.tracker.activate rules standing.person source).2.2.1 } :=
  follows_activateEach hkeyed standing.tracker.active standing source fun _ hid => hid

/-- The events of a chain, one after another. -/
theorem follows_chainFrom (links : Nat) (id : Int) (standing : Standing) (source : Source) :
    Follows rules standing
      (episodesOf linkEpisodes afterLink standing
        (chainFrom rules links id standing.person source).1)
      { standing with person := (chainFrom rules links id standing.person source).2.1 } := by
  induction links generalizing id standing source with
  | zero => exact .done standing
  | succ links ih =>
    rw [chainFrom]
    split
    · exact .done standing
    · rename_i event hfind
      simp only
      split
      · exact .cons ⟨hfind, source, rfl⟩ (.done _)
      · rename_i next _
        exact .cons ⟨hfind, source, rfl⟩ (ih next { standing with
          person := ((standing.person.recordEvent id).applyIfAny event.effect source).1 } _)

variable (rules) in
/-- The events that the year's age brings, one after another. -/
theorem follows_yearChain (age : Int) (standing : Standing) (source : Source) :
    Follows rules standing
      (episodesOf linkEpisodes afterLink standing
        (yearChain rules age standing.person source).1)
      { standing with person := (yearChain rules age standing.person source).2.1 } := by
  unfold yearChain ageChain
  split
  · split
    · exact follows_chainFrom _ _ standing _
    · exact .done standing
  · exact .done standing

variable (rules) in
/-- The achievements of a checkpoint, one after another. -/
theorem follows_check (opportunity : Opportunity) (standing : Standing) :
    Follows rules standing
      (episodesOf (achievementEpisodes opportunity) (consider opportunity) standing
        rules.achievements.values)
      (standing.check rules opportunity) := by
  rw [check_eq_foldl]
  exact follows_episodesOf (fun s a _ => s.follows_achievementEpisodes opportunity a) standing

end Standing

/-- The episodes of a year, of which the first is the turn of the year. -/
def Year.episodes (rules : Ruleset) (before : Standing) (year : Year) : List Episode :=
  ⟨.turn, turned before⟩ ::
    (episodesOf (Standing.unlockEpisodes rules) (Standing.unlockOne rules) (turned before)
        (rules.unlocksAt year.age) ++
      episodesOf Standing.firingEpisodes Standing.afterFiring (year.unlocked rules before)
        year.firings ++
      episodesOf Standing.linkEpisodes Standing.afterLink (year.activated rules before)
        year.chain ++
      episodesOf (Standing.achievementEpisodes .trajectory) (Standing.consider .trajectory)
        (year.evening rules before) rules.achievements.values)

/-- **The episodes of a year lead through it.** -/
theorem follows_liveYear (hkeyed : rules.talents.Keyed Talent.id) {isLast : Bool}
    {before : Standing} {source source' : Source} {year : Year}
    (h : liveYear rules isLast before source = (year, source')) :
    Follows rules before (year.episodes rules before) year.standing := by
  obtain ⟨tracker, person, source₁, hfire, hchain, -⟩ := liveYear_parts h
  obtain ⟨-, -, -, hstanding⟩ := evening_of_liveYear h
  have hunlocks : Follows rules (Year.turned before) _ (year.unlocked rules before) :=
    follows_episodesOf (fun s id _ => s.follows_unlockEpisodes id) _
  have hfired := Standing.follows_activate hkeyed (year.unlocked rules before) source
  rw [hfire, ← Year.activated_eq hfire] at hfired
  have hlinks := Standing.follows_yearChain rules year.age
    { year.unlocked rules before with tracker := tracker, person := person } source₁
  rw [hchain, ← Year.evening_eq hfire hchain, ← Year.activated_eq hfire] at hlinks
  rw [hstanding]
  have hturn : Incident.Changes rules before (Year.turned before) .turn := rfl
  refine .cons hturn (((hunlocks.append hfired).append hlinks).append ?_)
  exact Standing.follows_check rules .trajectory (year.evening rules before)

/-! ## A life -/

/-- The episodes of the years lead through them. -/
theorem Goes.follows (hkeyed : rules.talents.Keyed Talent.id) {lived : Nat} {before : Standing}
    {source source' : Source} {years : List Year}
    (h : Goes rules lived before source years source') :
    Follows rules before
      (episodesOf (fun s year => year.episodes rules s) (fun _ year => year.standing) before years)
      (standingAfter before years) := by
  induction h with
  | last hyear _ => exact (follows_liveYear hkeyed hyear).append (.done _)
  | more hyear _ _ ih =>
    rw [standingAfter_cons]
    exact (follows_liveYear hkeyed hyear).append ih

/-- How a life stands before anything has happened. -/
def Request.standing (request : Request) (settings : Settings) : Standing :=
  ⟨request.person settings, .empty, .ofHistory request.achieved⟩

/-- All that happens in a life, from the person of its request to its closing. -/
def Life.chronicle (life : Life) (rules : Ruleset) (request : Request) : List Episode :=
  episodesOf Settling.episodes Standing.afterSettling (request.standing rules.settings)
      life.resolution.settlings ++
    episodesOf (Standing.achievementEpisodes .start) (Standing.consider .start)
      (life.settled request.achieved) rules.achievements.values ++
    episodesOf (fun s year => year.episodes rules s) (fun _ year => year.standing) life.opening
      life.years ++
    episodesOf (Standing.achievementEpisodes .summary) (Standing.consider .summary)
      (standingAfter life.opening life.years) rules.achievements.values

/-- What happens in a life before its first year. -/
def Life.beginning (life : Life) (rules : Ruleset) (request : Request) : List Episode :=
  episodesOf Settling.episodes Standing.afterSettling (request.standing rules.settings)
      life.resolution.settlings ++
    episodesOf (Standing.achievementEpisodes .start) (Standing.consider .start)
      (life.settled request.achieved) rules.achievements.values

/-- The beginning of a life leads from the person that the request asks for to its first year. -/
theorem follows_beginning_of_live (hkeyed : rules.talents.Keyed Talent.id) {request : Request}
    {source source' : Source} {life : Life}
    (h : live rules request source = (.ok life, source')) :
    Follows rules (request.standing rules.settings) (life.beginning rules request)
      life.opening := by
  obtain ⟨source₁, hresolve, hopening, -, -⟩ := live_eq_ok h
  obtain ⟨selection, settlings, state, hselection, hsettle, hresolution⟩ := resolve_eq_ok hresolve
  have hsettled := follows_settleEach hkeyed (mem_values_of_mem_survivors hselection)
    ⟨(survivors selection).map Talent.id, .empty, request.person rules.settings, source⟩
    (.ofHistory request.achieved)
  rw [hsettle] at hsettled
  have hstart := Standing.follows_check rules .start (life.settled request.achieved)
  rw [← hopening] at hstart
  unfold Life.beginning
  unfold Life.settled at hstart ⊢
  rw [hresolution] at hstart ⊢
  exact hsettled.append hstart

/-- **The chronicle of a life follows the rules**, from the person that the request asks for to the
closing of the life. -/
theorem follows_of_live (hkeyed : rules.talents.Keyed Talent.id) {request : Request}
    {source source' : Source} {life : Life}
    (h : live rules request source = (.ok life, source')) :
    Follows rules (request.standing rules.settings) (life.chronicle rules request)
      life.closing := by
  obtain ⟨source₁, -, -, hyears, hclosing⟩ := live_eq_ok h
  have hsummary := Standing.follows_check rules .summary (standingAfter life.opening life.years)
  rw [← hclosing] at hsummary
  exact ((follows_beginning_of_live hkeyed h).append (hyears.follows hkeyed)).append hsummary

end LifeCourse
