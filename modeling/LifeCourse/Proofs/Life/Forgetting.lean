import LifeCourse.Proofs.Life.Ending
import Mathlib.Data.List.Find

/-!
# Lives that do not ask for the past

A person lists achievements and counts earlier lives.  Both change what conditions see, and both
differ between lives whose requests name different earlier lives, or whose rules have different
achievements.  If no talent and no event asks for either of them, the two lives are the same
(`simulateWith_eq_of_ignoresPast`).

## Forgetting

The two lives are not compared with each other but each with a third one: the life of a person
without a past under rules without achievements.  `forget` takes achievements, earlier lives and the
ledger out of whatever a life is made of, and every function that lives a life commutes with it.
The statements are equations of functions, so a step is rewritten once on each side, draws are the
same because the sources are part of the equations, and the induction is that of the function.

The chain of an event is where the hypothesis on branches is needed, and what a link tells is asked
of the branches a second time when the life is shown (`Entry.ofYear_forget`).
-/

namespace LifeCourse

/-! ## What is forgotten -/

/-- The person without achievements and earlier lives. -/
def Person.forget (person : Person) : Person :=
  { person with achievements := [], lives := 0 }

/-- The rules without achievements. -/
def Ruleset.withoutAchievements (rules : Ruleset) : Ruleset :=
  { rules with achievements := .empty }

@[simp] theorem Ruleset.talents_withoutAchievements (rules : Ruleset) :
    rules.withoutAchievements.talents = rules.talents :=
  rfl

@[simp] theorem Ruleset.events_withoutAchievements (rules : Ruleset) :
    rules.withoutAchievements.events = rules.events :=
  rfl

/-- The condition asks neither for achievements nor for earlier lives. -/
def Condition.IgnoresPast (condition : Condition) : Prop :=
  "ACH" ∉ condition.names ∧ "TMS" ∉ condition.names

/-- The talent's condition, if it has one, does not ask for the past. -/
def Talent.IgnoresPast (talent : Talent) : Prop :=
  ∀ condition, talent.condition = some condition → condition.IgnoresPast

/-- No filter and no branch of the event asks for the past. -/
structure Event.IgnoresPast (event : Event) : Prop where
  requires : ∀ condition, event.requires = some condition → condition.IgnoresPast
  forbids : ∀ condition, event.forbids = some condition → condition.IgnoresPast
  branches : ∀ branch ∈ event.branches, branch.condition.IgnoresPast

/-- No talent and no event of the ruleset asks for the past. -/
structure Ruleset.IgnoresPast (rules : Ruleset) : Prop where
  talents : ∀ talent ∈ rules.talents.values, talent.IgnoresPast
  events : ∀ event ∈ rules.events.values, event.IgnoresPast

namespace Person

theorem lookup_forget (person : Person) {name : String} (hach : name ≠ "ACH")
    (htms : name ≠ "TMS") : person.forget.lookup name = person.lookup name := by
  unfold lookup
  split
  · rfl
  · rfl
  · exact absurd rfl hach
  · exact absurd rfl htms
  · rfl
  · rfl

theorem forget_change (person : Person) (stat : Stat) (amount : Int) :
    (person.change stat amount).forget = person.forget.change stat amount := by
  unfold change
  split
  · rfl
  · rfl

theorem forget_changeAll (person : Person) (amounts : PerStat Int) :
    (person.changeAll amounts).forget = person.forget.changeAll amounts :=
  (List.foldl_hom forget fun person stat =>
    (forget_change person stat (amounts.get stat)).symm).symm

theorem apply_forget (person : Person) (effect : Effect) (source : Source) :
    person.forget.apply effect source =
      ((person.apply effect source).1.forget, (person.apply effect source).2) := by
  unfold apply
  rw [← forget_changeAll]
  split
  · rfl
  · simp only [forget_change]

theorem applyIfAny_forget (person : Person) (effect : Option Effect) (source : Source) :
    person.forget.applyIfAny effect source =
      ((person.applyIfAny effect source).1.forget, (person.applyIfAny effect source).2) := by
  cases effect with
  | none => rfl
  | some effect => exact apply_forget person effect source

end Person

/-! ## Conditions -/

theorem Condition.holds_forget {condition : Condition} (h : condition.IgnoresPast)
    (person : Person) : condition.holds person.forget.lookup = condition.holds person.lookup := by
  refine Condition.holds_congr fun name hname => person.lookup_forget ?_ ?_
  · rintro rfl
    exact h.1 hname
  · rintro rfl
    exact h.2 hname

theorem holdsIfAny_forget {condition : Option Condition}
    (h : ∀ c, condition = some c → c.IgnoresPast) (person : Person) :
    holdsIfAny condition person.forget.lookup = holdsIfAny condition person.lookup := by
  cases condition with
  | none => rfl
  | some condition => exact Condition.holds_forget (h condition rfl) person

theorem Talent.holds_forget {talent : Talent} (h : talent.IgnoresPast) (person : Person) :
    talent.holds person.forget.lookup = talent.holds person.lookup :=
  holdsIfAny_forget h person

namespace Event

variable {event : Event}

theorem isEligible_forget (h : event.IgnoresPast) (person : Person) :
    event.isEligible person.forget.lookup = event.isEligible person.lookup := by
  have hforbids : (event.forbids.any fun condition => condition.holds person.forget.lookup) =
      event.forbids.any fun condition => condition.holds person.lookup := by
    cases hsome : event.forbids with
    | none => rfl
    | some condition => exact Condition.holds_forget (h.forbids condition hsome) person
  rw [isEligible, isEligible, hforbids, holdsIfAny_forget h.requires]

theorem branch?_forget (h : event.IgnoresPast) (person : Person) :
    event.branch? person.forget.lookup = event.branch? person.lookup := by
  have hfind : (event.branches.find? fun branch => branch.condition.holds person.forget.lookup) =
      event.branches.find? fun branch => branch.condition.holds person.lookup :=
    List.find?_congr fun branch hbranch => Condition.holds_forget (h.branches branch hbranch) person
  rw [branch?, branch?, hfind]

theorem next?_forget (h : event.IgnoresPast) (person : Person) :
    event.next? person.forget.lookup = event.next? person.lookup := by
  rw [next?, next?, branch?_forget h]

theorem telling_forget (h : event.IgnoresPast) (person : Person) :
    event.telling person.forget.lookup = event.telling person.lookup := by
  rw [telling, telling, branch?_forget h]

end Event

namespace Ruleset.IgnoresPast

variable {rules : Ruleset}

theorem talent (h : rules.IgnoresPast) {id : Int} {talent : Talent}
    (hfind : rules.talents.find? id = some talent) : talent.IgnoresPast :=
  h.talents talent (Table.mem_values_iff.mpr ⟨id, hfind⟩)

theorem event (h : rules.IgnoresPast) {id : Int} {event : Event}
    (hfind : rules.events.find? id = some event) : event.IgnoresPast :=
  h.events event (Table.mem_values_iff.mpr ⟨id, hfind⟩)

end Ruleset.IgnoresPast

/-! ## A year -/

variable {rules : Ruleset}

/-- The firing of a talent, of a person without a past. -/
def Firing.forget (firing : Firing) : Firing :=
  { firing with person := firing.person.forget }

/-- The link of a chain, of a person without a past. -/
def Link.forget (link : Link) : Link :=
  { link with person := link.person.forget }

/-- The standing of a life without a past and without achievements. -/
def Standing.forget (standing : Standing) : Standing :=
  { standing with person := standing.person.forget, ledger := ⟨[], []⟩ }

/-- The year of a life without a past and without achievements. -/
def Year.forget (year : Year) : Year :=
  { year with
    firings := year.firings.map Firing.forget
    chain := year.chain.map Link.forget
    person := year.person.forget
    standing := year.standing.forget }

namespace Tracker

theorem fire_forget (tracker : Tracker) (talent : Talent) (person : Person) (source : Source) :
    tracker.fire talent person.forget source =
      ((tracker.fire talent person source).1, (tracker.fire talent person source).2.1.forget,
        (tracker.fire talent person source).2.2) := by
  unfold fire
  rw [person.applyIfAny_forget]
  split
  · rfl
  · rfl

theorem unlockOne_forget (state : Tracker × Person) (id : Int) :
    unlockOne rules.withoutAchievements (state.1, state.2.forget) id =
      ((unlockOne rules state id).1, (unlockOne rules state id).2.forget) := by
  unfold unlockOne
  simp only [Ruleset.talents_withoutAchievements]
  split
  · rfl
  · split
    · rfl
    · rename_i talent _
      have hadmits : state.1.admits rules.withoutAchievements talent =
          state.1.admits rules talent := rfl
      rw [hadmits]
      split
      · rfl
      · rfl

theorem unlock_forget (tracker : Tracker) (ids : List Int) (person : Person) :
    tracker.unlock rules.withoutAchievements ids person.forget =
      ((tracker.unlock rules ids person).1, (tracker.unlock rules ids person).2.forget) := by
  show ids.foldl (unlockOne rules.withoutAchievements)
    ((tracker, person).1, (tracker, person).2.forget) = _
  exact List.foldl_hom (fun state : Tracker × Person => (state.1, state.2.forget)) unlockOne_forget

theorem activateEach_forget (h : rules.IgnoresPast) (ids : List Int) (tracker : Tracker)
    (person : Person) (source : Source) :
    activateEach rules.withoutAchievements ids tracker person.forget source =
      ((activateEach rules ids tracker person source).1.map Firing.forget,
        (activateEach rules ids tracker person source).2.1,
        (activateEach rules ids tracker person source).2.2.1.forget,
        (activateEach rules ids tracker person source).2.2.2) := by
  induction ids generalizing tracker person source with
  | nil => rfl
  | cons id rest ih =>
    rw [activateEach, activateEach, Ruleset.talents_withoutAchievements]
    cases hfind : rules.talents.find? id with
    | none => exact ih tracker person source
    | some talent =>
      simp only [Talent.holds_forget (h.talent hfind), fire_forget]
      split
      · exact ih tracker person source
      · simp only [ih]
        rfl

end Tracker

theorem eligibleEntries_forget (h : rules.IgnoresPast) (slot : AgeSlot) (person : Person) :
    eligibleEntries rules.withoutAchievements slot person.forget =
      eligibleEntries rules slot person := by
  refine List.filterMap_congr fun entry _ => ?_
  rw [Ruleset.events_withoutAchievements]
  cases hfind : rules.events.find? entry.event with
  | none => rfl
  | some event => simp only [Option.filter_some, Event.isEligible_forget (h.event hfind)]

theorem chooseEvent_forget (h : rules.IgnoresPast) (slot : AgeSlot) (person : Person)
    (source : Source) :
    chooseEvent rules.withoutAchievements slot person.forget source =
      chooseEvent rules slot person source := by
  rw [chooseEvent, chooseEvent, eligibleEntries_forget h]

theorem chainFrom_forget (h : rules.IgnoresPast) (links : Nat) (id : Int) (person : Person)
    (source : Source) :
    chainFrom rules.withoutAchievements links id person.forget source =
      ((chainFrom rules links id person source).1.map Link.forget,
        (chainFrom rules links id person source).2.1.forget,
        (chainFrom rules links id person source).2.2) := by
  induction links generalizing id person source with
  | zero => rfl
  | succ links ih =>
    rw [chainFrom, chainFrom, Ruleset.events_withoutAchievements]
    cases hfind : rules.events.find? id with
    | none => rfl
    | some event =>
      have hrecord : person.forget.recordEvent id = (person.recordEvent id).forget := rfl
      simp only [hrecord, Person.applyIfAny_forget, Event.next?_forget (h.event hfind)]
      split
      · rfl
      · simp only [ih]
        rfl

/-- What an age brings is no matter of the past. -/
theorem ageChain_forget (h : rules.IgnoresPast) (slot : AgeSlot) (person : Person)
    (source : Source) :
    ageChain rules.withoutAchievements slot person.forget source =
      ((ageChain rules slot person source).1.map Link.forget,
        (ageChain rules slot person source).2.1.forget,
        (ageChain rules slot person source).2.2) := by
  rw [ageChain, ageChain, chooseEvent_forget h]
  split
  · exact chainFrom_forget h _ _ person _
  · rfl

theorem endsLife_forget (chain : List Link) :
    endsLife (chain.map Link.forget) = endsLife chain := by
  rw [endsLife, endsLife, List.any_map]
  rfl

/-- Without achievements a checkpoint changes nothing. -/
theorem Standing.check_withoutAchievements (standing : Standing) (opportunity : Opportunity) :
    standing.check rules.withoutAchievements opportunity = standing :=
  rfl

/-- With them it changes what is forgotten. -/
theorem Standing.check_forget (standing : Standing) (opportunity : Opportunity) :
    (standing.check rules opportunity).forget = standing.forget := by
  obtain ⟨achievements, hperson⟩ := person_check rules standing opportunity
  have htracker : (standing.check rules opportunity).tracker = standing.tracker := rfl
  rw [forget, forget, hperson, htracker]
  rfl

/-- **A year is no matter of the past.** -/
theorem liveYear_forget (h : rules.IgnoresPast) (isLast : Bool) (standing : Standing)
    (source : Source) :
    liveYear rules.withoutAchievements isLast standing.forget source =
      ((liveYear rules isLast standing source).1.forget,
        (liveYear rules isLast standing source).2) := by
  have hturned : standing.forget.person.nextYear = standing.person.nextYear.forget := rfl
  have hage : standing.person.nextYear.forget.current .age =
      standing.person.nextYear.current .age := rfl
  have htracker : standing.forget.tracker = standing.tracker := rfl
  have hages : rules.withoutAchievements.ages = rules.ages := rfl
  rw [liveYear, liveYear, hturned, hage, htracker, hages]
  cases hslot : rules.ages.find? (standing.person.nextYear.current .age) with
  | none =>
    simp only [Tracker.activate, Tracker.activateEach_forget h]
    rw [Year.forget, Standing.check_forget]
    rfl
  | some slot =>
    simp only [Tracker.unlock_forget, Tracker.activate, Tracker.activateEach_forget h,
      ageChain_forget h]
    rw [Year.forget, Standing.check_forget]
    simp only [endsLife_forget]
    rfl

/-- The years of a life are no matter of the past. -/
theorem liveYears_forget (h : rules.IgnoresPast) (left : Nat) (standing : Standing)
    (source : Source) :
    liveYears rules.withoutAchievements left standing.forget source =
      ((liveYears rules left standing source).1.map Year.forget,
        (liveYears rules left standing source).2) := by
  induction left generalizing standing source with
  | zero => rfl
  | succ left ih =>
    rw [liveYears, liveYears, liveYear_forget h]
    have hend : ∀ year : Year, year.forget.isEnd = year.isEnd := fun _ => rfl
    have hstanding : ∀ year : Year, year.forget.standing = year.standing.forget := fun _ => rfl
    simp only [hend, hstanding, ih]
    split
    · rfl
    · rfl

/-! ## Settling -/

/-- The state while survivors are settled, of a person without a past. -/
def SettlingState.forget (state : SettlingState) : SettlingState :=
  { state with person := state.person.forget }

/-- The settling of a survivor, of a person without a past. -/
def Settling.forget (settling : Settling) : Settling :=
  { settling with person := settling.person.forget }

/-- The settled talents of a person without a past. -/
def Resolution.forget (resolution : Resolution) : Resolution :=
  { resolution with
    settlings := resolution.settlings.map Settling.forget
    person := resolution.person.forget }

theorem walk_withoutAchievements (steps : Nat) (talent : Talent) (taken : List Int)
    (source : Source) :
    walk rules.withoutAchievements steps talent taken source =
      walk rules steps talent taken source := by
  induction steps generalizing talent taken source with
  | zero => rfl
  | succ steps ih =>
    have hdraw : drawReplacement rules.withoutAchievements talent taken source =
        drawReplacement rules talent taken source := rfl
    rw [walk, walk, hdraw]
    simp only [ih]

theorem SettlingState.fire_forget (state : SettlingState) (talent : Talent) :
    state.forget.fire talent = (state.fire talent).forget := by
  rw [fire, forget, state.tracker.fire_forget]
  rfl

theorem settle_forget (h : rules.IgnoresPast) {survivor : Talent}
    (hsurvivor : survivor ∈ rules.talents.values) (state : SettlingState) :
    settle rules.withoutAchievements survivor state.forget =
      ((settle rules survivor state).1.forget, (settle rules survivor state).2.forget) := by
  have hholds : survivor.holds state.forget.person.lookup = survivor.holds state.person.lookup :=
    Talent.holds_forget (h.talents survivor hsurvivor) state.person
  rw [settle, settle, hholds, walk_withoutAchievements]
  split
  · rcases hwalk : walk rules rules.settings.maxChainDepth survivor state.taken state.source
      with ⟨path, taken, source⟩
    have hwalk' : walk rules rules.withoutAchievements.settings.maxChainDepth survivor
        state.forget.taken state.forget.source = (path, taken, source) := hwalk
    have htarget := h.talents _ (getLast?_walk_mem_values hwalk hsurvivor)
    -- The states in which the target has joined differ in their persons only.
    have hjoin : SettlingState.join { state.forget with taken := taken, source := source }
        (path.getLast?.getD survivor) = (SettlingState.join
          { state with taken := taken, source := source } (path.getLast?.getD survivor)).forget :=
      rfl
    simp only [hwalk', hjoin]
    generalize SettlingState.join { state with taken := taken, source := source }
      (path.getLast?.getD survivor) = joined
    have hfires : ((path.getLast?.getD survivor).id == survivor.id ||
        (path.getLast?.getD survivor).holds joined.forget.person.lookup) =
          ((path.getLast?.getD survivor).id == survivor.id ||
            (path.getLast?.getD survivor).holds joined.person.lookup) :=
      congrArg _ (Talent.holds_forget htarget joined.person)
    have htracker : joined.forget.tracker = joined.tracker := rfl
    rw [hfires, htracker, joined.fire_forget]
    split
    · rfl
    · rfl
  · rfl

theorem settleEach_forget (h : rules.IgnoresPast) {coming : List Talent}
    (hcoming : ∀ talent ∈ coming, talent ∈ rules.talents.values) (state : SettlingState) :
    settleEach rules.withoutAchievements coming state.forget =
      ((settleEach rules coming state).1.map Settling.forget,
        (settleEach rules coming state).2.forget) := by
  induction coming generalizing state with
  | nil => rfl
  | cons survivor rest ih =>
    obtain ⟨hsurvivor, hrest⟩ := List.forall_mem_cons.mp hcoming
    rw [settleEach, settleEach, settle_forget h hsurvivor]
    simp only [ih hrest]
    rfl

/-- **How talents are settled is no matter of the past.** -/
theorem resolve_forget (h : rules.IgnoresPast) (ids : List Int) (person : Person)
    (source : Source) :
    resolve rules.withoutAchievements ids person.forget source =
      (resolve rules ids person source).map fun resolved =>
        (resolved.1.forget, resolved.2) := by
  have hselect : rules.withoutAchievements.select ids = rules.select ids := rfl
  rw [resolve, resolve, hselect]
  cases hselection : rules.select ids with
  | error failure => rfl
  | ok selection =>
    have hsettle : settleEach rules.withoutAchievements (survivors selection)
        ⟨(survivors selection).map Talent.id, .empty, person.forget, source⟩ = _ :=
      settleEach_forget h (mem_values_of_mem_survivors hselection)
        ⟨(survivors selection).map Talent.id, .empty, person, source⟩
    simp only [bind, Except.bind, hsettle]
    rfl

/-! ## A life -/

/-- The life of a person without a past and without achievements. -/
def Life.forget (life : Life) : Life where
  resolution := life.resolution.forget
  opening := life.opening.forget
  years := life.years.map Year.forget
  closing := life.closing.forget

theorem standingAfter_forget (opening : Standing) (years : List Year) :
    standingAfter opening.forget (years.map Year.forget) =
      (standingAfter opening years).forget := by
  rw [standingAfter, standingAfter, List.getLast?_map]
  cases years.getLast? with
  | none => rfl
  | some year => rfl

theorem liveSettled_forget (h : rules.IgnoresPast) (achieved : List (List Int))
    (resolution : Resolution) (source : Source) :
    liveSettled rules.withoutAchievements [] resolution.forget source =
      ((liveSettled rules achieved resolution source).1.forget,
        (liveSettled rules achieved resolution source).2) := by
  have hopening : Standing.check ⟨resolution.forget.person, resolution.forget.tracker,
      .ofHistory []⟩ rules.withoutAchievements .start =
        (Standing.check ⟨resolution.person, resolution.tracker, .ofHistory achieved⟩ rules
          .start).forget := by
    rw [Standing.check_forget]
    rfl
  have hmax : rules.withoutAchievements.settings.maxYears = rules.settings.maxYears := rfl
  rw [liveSettled, liveSettled, hopening, hmax]
  generalize Standing.check ⟨resolution.person, resolution.tracker, .ofHistory achieved⟩ rules
    .start = opening
  simp only [liveYears_forget h, standingAfter_forget, Standing.check_withoutAchievements,
    Life.forget, Standing.check_forget]

/-- The person of a request is without a past if the request gives none. -/
theorem Request.person_withAchieved_nil (request : Request) (settings : Settings) :
    (request.withAchieved []).person settings = (request.person settings).forget := by
  have hnone : (request.allocate (.unborn settings)).achievements = [] :=
    (request.keeps_allocate (.unborn settings)).achievements
  rw [person, person, Person.setHistory_eq, Person.setHistory_eq, Person.forget]
  show ({ request.allocate (.unborn settings) with
    achievements := (request.allocate (.unborn settings)).achievements, lives := 0 } : Person) = _
  rw [hnone]

/-- **A life is no matter of the past.** -/
theorem live_forget (h : rules.IgnoresPast) (request : Request) (source : Source) :
    live rules.withoutAchievements (request.withAchieved []) source =
      ((live rules request source).1.map Life.forget, (live rules request source).2) := by
  have hperson := request.person_withAchieved_nil rules.settings
  have htalents : (request.withAchieved []).talents = request.talents := rfl
  have hsettings : rules.withoutAchievements.settings = rules.settings := rfl
  have hachieved : (request.withAchieved []).achieved = [] := rfl
  rw [live, live, htalents, hsettings, hachieved, hperson, resolve_forget h]
  cases resolve rules request.talents (request.person rules.settings) source with
  | error failure => rfl
  | ok resolved =>
    simp only [Except.map, liveSettled_forget h request.achieved]

/-! ## What is shown of a life -/

/-- The session without its new achievements. -/
def Session.withoutAchievements (session : Session) : Session :=
  { session with newAchievements := [] }

theorem Link.ofLink_forget {link : Link} (h : link.event.IgnoresPast) :
    Line.ofLink link.forget = Line.ofLink link := by
  have htelling : link.forget.telling = link.telling := Event.telling_forget h link.person
  rw [Line.ofLink, Line.ofLink, htelling]
  rfl

theorem Entry.ofYear_forget {year : Year} (h : ∀ link ∈ year.chain, link.event.IgnoresPast) :
    Entry.ofYear year.forget = Entry.ofYear year := by
  have hlines : (year.chain.map Link.forget).map Line.ofLink = year.chain.map Line.ofLink := by
    rw [List.map_map]
    exact List.map_congr_left fun link hlink => Link.ofLink_forget (h link hlink)
  have hfirings : (year.firings.map Firing.forget).map (fun firing =>
      Line.ofTalent firing.talent.info) = year.firings.map fun firing =>
        Line.ofTalent firing.talent.info := by
    rw [List.map_map]
    rfl
  rw [ofYear, ofYear, Year.forget, hlines, hfirings]
  rfl

/-- The events of a life do not ask for the past. -/
theorem ignoresPast_of_mem_chain (h : rules.IgnoresPast) {request : Request}
    {source source' : Source} {life : Life}
    (hlive : live rules request source = (.ok life, source')) :
    ∀ year ∈ life.years, ∀ link ∈ year.chain, link.event.IgnoresPast := by
  obtain ⟨source₁, -, -, hyears, -⟩ := live_eq_ok hlive
  exact hyears.forall_year fun hyear link hlink => h.event (find?_of_mem_chain hyear link hlink)

theorem Session.ofLife_forget {life : Life}
    (h : ∀ year ∈ life.years, ∀ link ∈ year.chain, link.event.IgnoresPast) :
    Session.ofLife rules.withoutAchievements life.forget =
      (Session.ofLife rules life).withoutAchievements := by
  have htrajectory : (life.years.map Year.forget).map Entry.ofYear =
      life.years.map Entry.ofYear := by
    rw [List.map_map]
    exact List.map_congr_left fun year hyear => Entry.ofYear_forget (h year hyear)
  have htriggered : ((life.years.map Year.forget).flatMap fun year => year.chain.map Link.id) =
      life.years.flatMap fun year => year.chain.map Link.id := by
    rw [List.flatMap_map]
    exact List.flatMap_congr fun year _ => List.map_map
  have htalents : life.forget.resolution.talents = life.resolution.talents := List.map_map
  have hreplacements : life.forget.resolution.replacements = life.resolution.replacements :=
    List.filterMap_map
  rw [ofLife, htalents, hreplacements, Life.forget, htrajectory, htriggered]
  rfl

/-- **What is shown of a life is no matter of the past**, new achievements apart. -/
theorem simulateWith_forget (h : rules.IgnoresPast) (request : Request) (source : Source) :
    simulateWith rules.withoutAchievements (request.withAchieved []) source =
      ((simulateWith rules request source).1.map Session.withoutAchievements,
        (simulateWith rules request source).2) := by
  rw [simulateWith, simulateWith, live_forget h]
  rcases hlive : live rules request source with ⟨result, source'⟩
  cases result with
  | error failure => rfl
  | ok life =>
    simp only [Except.map, Session.ofLife_forget (ignoresPast_of_mem_chain h hlive)]

/-- **Achievements and earlier lives do not interfere with a life.**  If no talent and no event asks
for them, then under rules with other achievements, and for a request with other earlier lives, the
life fails alike or shows the same session, its new achievements apart, and draws the same. -/
theorem simulateWith_eq_of_ignoresPast (h : rules.IgnoresPast)
    (achievements : Table Int Achievement) (request : Request) (groups : List (List Int))
    (source : Source) :
    (simulateWith rules request source).1.map Session.withoutAchievements =
        (simulateWith { rules with achievements := achievements } (request.withAchieved groups)
          source).1.map Session.withoutAchievements ∧
      (simulateWith rules request source).2 =
        (simulateWith { rules with achievements := achievements } (request.withAchieved groups)
          source).2 := by
  have hother : Ruleset.IgnoresPast { rules with achievements := achievements } :=
    ⟨h.talents, h.events⟩
  -- Both lives are forgotten to the same one.
  have hone := simulateWith_forget h request source
  have htwo : simulateWith rules.withoutAchievements (request.withAchieved []) source = _ :=
    simulateWith_forget hother (request.withAchieved groups) source
  exact Prod.mk.inj (hone.symm.trans htwo)

/-! ## A life that is lived twice -/

/-- Rules under which birth brings a talent and an event that leads to another one, with conditions
at each of them. -/
def incuriousRules : Ruleset where
  talents := .ofList [(1, { Talent.ofName 1 "" with condition := some (.ofText "") })]
  events := .ofList [
    (1, { Event.ofText 1 "" with
      noRandom := true
      requires := some (.ofText "")
      branches := [⟨.ofText "", 2⟩] }),
    (2, .ofText 2 "")]
  ages := .ofList [(0, ⟨0, [1], [⟨1, 1⟩]⟩)]
  achievements := .empty
  rubrics := .empty
  settings := { Settings.standard with terminalAge := 0, terminalAge_le := Range.zero_le_greatest }

/-- An achievement that every life has which did not have it before. -/
def firstDay : Achievement where
  id := 3
  name := ""
  description := ""
  grade := 0
  opportunity := some .start
  condition := .ofText ""

/-- An event with a text and nothing else asks for nothing. -/
theorem Event.ignoresPast_ofText (id : Int) (text : String) :
    (Event.ofText id text).IgnoresPast where
  requires := fun _ h => absurd h (Option.some_ne_none _).symm
  forbids := fun _ h => absurd h (Option.some_ne_none _).symm
  branches := fun _ h => absurd h List.not_mem_nil

theorem ignoresPast_incuriousRules : incuriousRules.IgnoresPast := by
  have htalents : incuriousRules.talents.values =
      [{ Talent.ofName 1 "" with condition := some (.ofText "") }] := rfl
  have hevents : incuriousRules.events.values =
      [{ Event.ofText 1 "" with
          noRandom := true
          requires := some (.ofText "")
          branches := [⟨.ofText "", 2⟩] },
        .ofText 2 ""] := rfl
  have hblank : Condition.IgnoresPast (.ofText "") := ⟨List.not_mem_nil, List.not_mem_nil⟩
  constructor
  · rw [htalents]
    refine List.forall_mem_singleton.mpr fun condition h => ?_
    rwa [← Option.some.inj h]
  · rw [hevents]
    refine List.forall_mem_cons.mpr ⟨⟨fun condition h => ?_, ?_, ?_⟩, ?_⟩
    · rwa [← Option.some.inj h]
    · exact (Event.ignoresPast_ofText 1 "").forbids
    · exact List.forall_mem_singleton.mpr hblank
    · exact List.forall_mem_singleton.mpr (Event.ignoresPast_ofText 2 "")

/-- A first life without achievements and a second one that is given its own are the same. -/
theorem simulateWith_eq_of_ignoresPast_incurious :
    ∃ first second source source',
      simulateWith incuriousRules .empty (.seeded 0) = (.ok first, source) ∧
      simulateWith { incuriousRules with achievements := .ofList [(3, firstDay)] }
        (Request.empty.withAchieved [[8]]) (.seeded 0) = (.ok second, source') ∧
      first.newAchievements = [] ∧ second.newAchievements = [firstDay.info] ∧
      first.triggeredEvents = [1, 2] ∧
      first.withoutAchievements = second.withoutAchievements ∧ source = source' := by
  have hfirst : ∃ first source,
      simulateWith incuriousRules .empty (.seeded 0) = (.ok first, source) ∧
      first.newAchievements = [] ∧ first.triggeredEvents = [1, 2] := ⟨_, _, rfl, rfl, rfl⟩
  have hsecond : ∃ second source,
      simulateWith { incuriousRules with achievements := .ofList [(3, firstDay)] }
        (Request.empty.withAchieved [[8]]) (.seeded 0) = (.ok second, source) ∧
      second.newAchievements = [firstDay.info] := ⟨_, _, rfl, rfl⟩
  obtain ⟨first, source, hfirst, hnone, htriggered⟩ := hfirst
  obtain ⟨second, source', hsecond, hnew⟩ := hsecond
  obtain ⟨hsession, hsource⟩ := simulateWith_eq_of_ignoresPast ignoresPast_incuriousRules
    (.ofList [(3, firstDay)]) .empty [[8]] (.seeded 0)
  rw [hfirst, hsecond] at hsession hsource
  exact ⟨first, second, source, source', hfirst, hsecond, hnone, hnew, htriggered,
    Except.ok.inj hsession, hsource⟩

end LifeCourse
