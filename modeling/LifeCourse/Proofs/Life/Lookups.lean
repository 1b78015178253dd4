import LifeCourse.Proofs.Life.Enumerated
import LifeCourse.Proofs.Life.Overlays
import LifeCourse.Proofs.Rules.References

/-!
# Lives that miss nothing

A life passes over an id that names nothing: a pool entry is not eligible, a talent is not unlocked, a
candidate is not offered, a chain ends.  So one cannot see from a life whether it has missed anything.

An exacting life can tell.  It is lived like any other one, except that wherever an entity is looked up
by id, in a pool, in a chain, among the talents of an age, among the active ones, and among those taken
or named when a replacement is drawn, an id that names nothing ends it with that reference
(`Exacting.live`).  Under closed rules no exacting life ends in this way: it is the life itself
(`Exacting.live_eq`).

## Which ids a life holds

An id is looked up because an entity names it, and then the rules are closed, or because the life
holds it.  A life holds the ids of talents only, those taken and those active, and it has taken them
from talents of the rules (`Ruleset.HasTalents`).  Every step keeps that, and it is the invariant of
the inductions below.
-/

namespace LifeCourse

/-! ## Traversals in which no step fails -/

namespace Outcome

variable {ε α β : Type} {as : List α}

theorem mapM_eq_ok_map {f : α → Except ε β} {g : α → β} (h : ∀ a ∈ as, f a = .ok (g a)) :
    as.mapM f = .ok (as.map g) :=
  mapM_eq_ok_iff.mpr (List.forall₂_map_right_iff.mpr (List.forall₂_same.mpr h))

theorem filterM_eq_ok_filter {f : α → Except ε Bool} {p : α → Bool}
    (h : ∀ a ∈ as, f a = .ok (p a)) : as.filterM f = .ok (as.filter p) := by
  have hfrom : ∀ kept : List α, as.filterAuxM f kept = .ok ((as.filter p).reverse ++ kept) := by
    induction as with
    | nil => exact fun _ => rfl
    | cons a as ih =>
      intro kept
      obtain ⟨hhead, hrest⟩ := List.forall_mem_cons.mp h
      rw [List.filterAuxM, hhead]
      refine (ih hrest _).trans ?_
      cases hp : p a with
      | false => rw [List.filter_cons_of_neg (by simp [hp]), cond_false]
      | true =>
        rw [List.filter_cons_of_pos hp, List.reverse_cons, List.append_assoc, cond_true]
        rfl
  rw [List.filterM, hfrom []]
  show Except.ok (((as.filter p).reverse ++ []).reverse) = _
  rw [List.append_nil, List.reverse_reverse]

end Outcome

/-! ## An exacting life -/

namespace Exacting

variable (rules : Ruleset)

/-- The talent with an id, which must be there. -/
def theTalent (id : Int) : Except Reference Talent :=
  match rules.talents.find? id with
  | some talent => .ok talent
  | none => .error ⟨.talent, id⟩

/-- The event with an id, which must be there. -/
def theEvent (id : Int) : Except Reference Event :=
  match rules.events.find? id with
  | some event => .ok event
  | none => .error ⟨.event, id⟩

/-- Whether one of the talents with some ids conflicts with a talent. -/
def clashes (ids : List Int) (talent : Talent) : Except Reference Bool :=
  ids.anyM fun id => do return (← theTalent rules id).conflicts talent

/-- Whether a talent may replace another one beside those taken. -/
def eligible (talent : Talent) (taken : List Int) (candidate : Talent) : Except Reference Bool :=
  if candidate.id != talent.id && !candidate.exclusive && !taken.contains candidate.id then do
    return !(← clashes rules taken candidate)
  else .ok false

/-- The ids of a grade that may replace a talent, with one weight for all. -/
def ofGrade (talent : Talent) (taken : List Int) (entry : Int × Float) :
    Except Reference (List (Int × Float)) := do
  let fitting ← (rules.talents.values.filter fun other => other.grade == entry.1).filterM
    (eligible rules talent taken)
  return fitting.map fun other => (other.id, entry.2)

/-- Whether the talent that a rule names may replace a talent. -/
def mayBe (talent : Talent) (taken : List Int) (entry : Int × Float) : Except Reference Bool := do
  eligible rules talent taken (← theTalent rules entry.1)

/-- The ids among which a replacement is drawn, with their weights. -/
def options (talent : Talent) (taken : List Int) (rule : Replacement) :
    Except Reference (List (Int × Float)) := do
  let graded ← rule.grades.mapM (ofGrade rules talent taken)
  let named ← rule.talents.filterM (mayBe rules talent taken)
  return graded.flatten ++ named

/-- Draws an id and looks it up. -/
def drawReplacement (talent : Talent) (taken : List Int) (source : Source) :
    Except Reference (Option Talent × Source) :=
  match talent.replacement with
  | none => .ok (none, source)
  | some rule => do
    match source.pick (← options rules talent taken rule) with
    | (none, source) => return (none, source)
    | (some id, source) => return (some (← theTalent rules id), source)

/-- The talents that a walk of replacements comes to, with what is taken after it. -/
def walk : Nat → Talent → List Int → Source →
    Except Reference (List Talent × List Int × Source)
  | 0, _, taken, source => .ok ([], taken, source)
  | steps + 1, talent, taken, source => do
    match ← drawReplacement rules talent taken source with
    | (none, source) => return ([], taken, source)
    | (some next, source) =>
      let taken := taken.filter (· != talent.id) ++ [next.id]
      let (path, result) ← walk steps next taken source
      return (next :: path, result)

/-- Settles one survivor. -/
def settle (survivor : Talent) (state : SettlingState) :
    Except Reference (Settling × SettlingState) :=
  if survivor.holds state.person.lookup then do
    let (path, taken, source) ←
      walk rules rules.settings.maxChainDepth survivor state.taken state.source
    let target := path.getLast?.getD survivor
    let state := SettlingState.join { state with taken := taken, source := source } target
    let fires := (target.id == survivor.id || target.holds state.person.lookup) &&
      !state.tracker.isSpent target
    let state := if fires then state.fire target else state
    return (⟨survivor, path, fires, state.person⟩, state)
  else
    let state := state.join survivor
    .ok (⟨survivor, [], false, state.person⟩, state)

/-- Settles survivors in order. -/
def settleEach : List Talent → SettlingState → Except Reference (List Settling × SettlingState)
  | [], state => .ok ([], state)
  | survivor :: rest, state => do
    let (settling, state) ← settle rules survivor state
    let (settlings, state) ← settleEach rest state
    return (settling :: settlings, state)

/-- Settles a selection of talents.  That a request selects an unknown one is a failure of the life
and no missing reference. -/
def resolve (ids : List Int) (person : Person) (source : Source) :
    Except Reference (Except Failure (Resolution × Source)) :=
  match rules.select ids with
  | .error failure => .ok (.error failure)
  | .ok selection => do
    let kept := survivors selection
    let (settlings, state) ←
      settleEach rules kept ⟨kept.map Talent.id, .empty, person, source⟩
    return .ok (⟨settlings, state.tracker, state.person⟩, state.source)

/-- Adds one talent of an age. -/
def unlockOne (state : Tracker × Person) (id : Int) : Except Reference (Tracker × Person) :=
  let (tracker, person) := state
  if tracker.active.contains id then .ok state
  else do
    let talent ← theTalent rules id
    if ← clashes rules tracker.active talent then return state
    else return (tracker.add id, person.addTalent id)

/-- Adds the talents of an age. -/
def unlock (tracker : Tracker) (ids : List Int) (person : Person) :
    Except Reference (Tracker × Person) :=
  ids.foldlM (unlockOne rules) (tracker, person)

/-- The pass over a list of talents. -/
def activateEach : List Int → Tracker → Person → Source →
    Except Reference (List Firing × Tracker × Person × Source)
  | [], tracker, person, source => .ok ([], tracker, person, source)
  | id :: rest, tracker, person, source => do
    let talent ← theTalent rules id
    if tracker.isSpent talent || !talent.holds person.lookup then
      activateEach rest tracker person source
    else
      let (tracker, person, source) := tracker.fire talent person source
      let (firings, result) ← activateEach rest tracker person source
      return (⟨talent, person⟩ :: firings, result)

/-- The event that is chosen from the entries of a pool.  The entries are looked up one after
another, up to the first that needs no draw; `drawn` are those before. -/
def chooseFrom (person : Person) (source : Source) :
    List PoolEntry → List (Int × Float) → Except Reference (Option Int × Source)
  | [], drawn => .ok (source.pick drawn)
  | entry :: rest, drawn => do
    let event ← theEvent rules entry.event
    if !event.isEligible person.lookup then chooseFrom person source rest drawn
    else if event.noRandom then return (some entry.event, source)
    else chooseFrom person source rest (drawn ++ [(entry.event, entry.weight)])

/-- The links from an event on, no more than a number of them. -/
def chainFrom : Nat → Int → Person → Source → Except Reference (List Link × Person × Source)
  | 0, _, person, source => .ok ([], person, source)
  | links + 1, id, person, source => do
    let event ← theEvent rules id
    let (person, source) := (person.recordEvent id).applyIfAny event.effect source
    let link : Link := ⟨id, event, person⟩
    match event.next? person.lookup with
    | none => return ([link], person, source)
    | some next =>
      let (rest, result) ← chainFrom links next person source
      return (link :: rest, result)

/-- The chain that an age brings. -/
def ageChain (slot : AgeSlot) (person : Person) (source : Source) :
    Except Reference (List Link × Person × Source) := do
  match ← chooseFrom rules person source slot.pool [] with
  | (some first, source) => chainFrom rules rules.settings.maxChainDepth first person source
  | (none, source) => return ([], person, source)

/-- Lives one year. -/
def liveYear (isLast : Bool) (standing : Standing) (source : Source) :
    Except Reference (Year × Source) := do
  let person := standing.person.nextYear
  let age := person.current .age
  let slot := rules.ages.find? age
  let (tracker, person) ← match slot with
    | some slot => unlock rules standing.tracker slot.talents person
    | none => .ok (standing.tracker, person)
  let (firings, tracker, person, source) ←
    activateEach rules tracker.active tracker person source
  let (chain, person, source) ← match slot with
    | some slot => ageChain rules slot person source
    | none => .ok ([], person, source)
  let isEnd := endsLife chain || person.isDead || person.atTerminalAge || isLast
  let after := Standing.check ⟨person, tracker, standing.ledger⟩ rules .trajectory
  return (⟨age, firings, chain, person, isEnd, after⟩, source)

/-- Lives until a year ends the life, or no years are left. -/
def liveYears : Nat → Standing → Source → Except Reference (List Year × Source)
  | 0, _, source => .ok ([], source)
  | left + 1, standing, source => do
    let (year, source) ← liveYear rules (left == 0) standing source
    if year.isEnd then return ([year], source)
    else
      let (years, source) ← liveYears left year.standing source
      return (year :: years, source)

/-- Lives a life whose talents are settled. -/
def liveSettled (achieved : List (List Int)) (resolution : Resolution) (source : Source) :
    Except Reference (Life × Source) := do
  let opening := Standing.check ⟨resolution.person, resolution.tracker, .ofHistory achieved⟩
    rules .start
  let (years, source) ← liveYears rules rules.settings.maxYears opening source
  let closing := (standingAfter opening years).check rules .summary
  return (⟨resolution, opening, years, closing⟩, source)

/-- Lives the life that a request asks for, unless it misses a reference. -/
def live (request : Request) (source : Source) :
    Except Reference (Except Failure Life × Source) := do
  match ← resolve rules request.talents (request.person rules.settings) source with
  | .error failure => return (.error failure, source)
  | .ok (resolution, source) =>
    let (life, source) ← liveSettled rules request.achieved resolution source
    return (.ok life, source)

end Exacting

/-! ## Ids of talents -/

/-- The rules have a talent for each of the ids. -/
def Ruleset.HasTalents (rules : Ruleset) (ids : List Int) : Prop :=
  ∀ id ∈ ids, ∃ talent, rules.talents.find? id = some talent

variable {rules : Ruleset}

theorem Ruleset.HasTalents.concat {ids : List Int} {id : Int} {talent : Talent}
    (h : rules.HasTalents ids) (hfind : rules.talents.find? id = some talent) :
    rules.HasTalents (ids ++ [id]) :=
  List.forall_mem_append.mpr ⟨h, List.forall_mem_singleton.mpr ⟨talent, hfind⟩⟩

theorem Ruleset.HasTalents.filter {ids : List Int} (h : rules.HasTalents ids) (p : Int → Bool) :
    rules.HasTalents (ids.filter p) := fun id hid =>
  h id (List.mem_of_mem_filter hid)

/-- No step makes an id active that has no talent. -/
theorem Standing.Step.hasTalents {standing standing' : Standing}
    (hstep : Standing.Step rules standing standing')
    (hactive : rules.HasTalents standing.tracker.active) :
    rules.HasTalents standing'.tracker.active := by
  cases hstep with
  | unlock _ hfind _ => exact hactive.concat hfind
  | turn => exact hactive
  | fire => exact hactive
  | happen => exact hactive
  | achieve => exact hactive

/-- A walk takes ids of talents only. -/
theorem hasTalents_walk (hkeyed : rules.talents.Keyed Talent.id) {steps : Nat} {talent : Talent}
    {taken taken' : List Int} {source source' : Source} {path : List Talent}
    (hwalk : walk rules steps talent taken source = (path, taken', source'))
    (h : rules.HasTalents taken) : rules.HasTalents taken' := by
  induction steps generalizing talent taken source path with
  | zero =>
    rw [walk] at hwalk
    cases hwalk
    exact h
  | succ steps ih =>
    rw [walk] at hwalk
    split at hwalk
    · cases hwalk
      exact h
    · rename_i next source₁ hdraw
      obtain ⟨hvalue, -, -⟩ := of_drawReplacement hdraw
      have hkept := h.filter (· != talent.id)
      rcases hwalk' : walk rules steps next (taken.filter (· != talent.id) ++ [next.id]) source₁
        with ⟨path', rest⟩
      simp only [hwalk'] at hwalk
      cases hwalk
      exact ih hwalk' (hkept.concat (hkeyed.find?_of_mem_values hvalue))

namespace Exacting

theorem theTalent_eq {id : Int} {talent : Talent} (h : rules.talents.find? id = some talent) :
    theTalent rules id = .ok talent := by
  rw [theTalent, h]

theorem theEvent_eq {id : Int} {event : Event} (h : rules.events.find? id = some event) :
    theEvent rules id = .ok event := by
  rw [theEvent, h]

/-! ## Replacement -/

theorem clashes_eq {ids : List Int} (h : rules.HasTalents ids) (talent : Talent) :
    clashes rules ids talent = .ok ((rules.known ids).any fun held => held.conflicts talent) := by
  induction ids with
  | nil => rfl
  | cons id rest ih =>
    obtain ⟨⟨held, hheld⟩, hrest⟩ := List.forall_mem_cons.mp h
    have hknown : rules.known (id :: rest) = held :: rules.known rest :=
      List.filterMap_cons_some hheld
    have hfirst : clashes rules (id :: rest) talent =
        if held.conflicts talent = true then .ok true else clashes rules rest talent := by
      rw [clashes, List.anyM_cons, theTalent_eq hheld]
      rfl
    rw [hfirst, ih hrest, hknown, List.any_cons]
    cases held.conflicts talent with
    | false => rfl
    | true => rfl

theorem eligible_eq {taken : List Int} (h : rules.HasTalents taken) (talent candidate : Talent) :
    eligible rules talent taken candidate = .ok (isCandidate rules talent taken candidate) := by
  rw [eligible, isCandidate, clashes_eq h]
  cases candidate.id != talent.id && !candidate.exclusive && !taken.contains candidate.id with
  | false => rfl
  | true => rfl

theorem ofGrade_eq {taken : List Int} (h : rules.HasTalents taken) (talent : Talent)
    (entry : Int × Float) :
    ofGrade rules talent taken entry = .ok ((rules.talents.values.filter fun other =>
      other.grade == entry.1 && isCandidate rules talent taken other).map fun other =>
        (other.id, entry.2)) := by
  rw [ofGrade, Outcome.filterM_eq_ok_filter fun other _ => eligible_eq h talent other,
    List.filter_filter]
  simp only [Bool.and_comm]
  rfl

theorem mayBe_eq {taken : List Int} (h : rules.HasTalents taken) (talent : Talent)
    {entry : Int × Float} {named : Talent} (hfind : rules.talents.find? entry.1 = some named) :
    mayBe rules talent taken entry =
      .ok ((rules.talents.find? entry.1).any (isCandidate rules talent taken)) := by
  rw [mayBe, theTalent_eq hfind, hfind, Option.any_some]
  exact eligible_eq h talent named

/-- **The options of a draw are the candidates**, if everything that is taken or named is there. -/
theorem options_eq (hkeyed : rules.talents.Keyed Talent.id) {taken : List Int}
    (htaken : rules.HasTalents taken) (talent : Talent) {rule : Replacement}
    (hnamed : rules.HasTalents (rule.talents.map Prod.fst)) :
    options rules talent taken rule =
      .ok ((candidates rules rule (isCandidate rules talent taken)).map fun candidate =>
        (candidate.1.id, candidate.2)) := by
  have hlisted : rule.talents.filterM (mayBe rules talent taken) =
      .ok (rule.talents.filter fun entry =>
        (rules.talents.find? entry.1).any (isCandidate rules talent taken)) := by
    refine Outcome.filterM_eq_ok_filter fun entry hentry => ?_
    obtain ⟨named, hfind⟩ := hnamed entry.1 (List.mem_map_of_mem hentry)
    exact mayBe_eq htaken talent hfind
  have hfilter : (rule.talents.filterMap fun entry =>
      ((rules.talents.find? entry.1).filter (isCandidate rules talent taken)).map fun _ => entry) =
        rule.talents.filter fun entry =>
          (rules.talents.find? entry.1).any (isCandidate rules talent taken) := by
    rw [← List.filterMap_eq_filter]
    refine List.filterMap_congr fun entry _ => ?_
    rw [Option.guard]
    cases rules.talents.find? entry.1 with
    | none => rfl
    | some named =>
      rw [Option.filter_some, Option.any_some]
      split
      · rfl
      · rfl
  rw [options, Outcome.mapM_eq_ok_map fun entry _ => ofGrade_eq htaken talent entry, hlisted,
    ← (Enumeration.ascending rules).options_eq hkeyed, Enumeration.options, hfilter,
    List.flatMap_def]
  simp only [Enumeration.ofGrade_eq _ hkeyed, List.map_map]
  rfl

/-- **A draw leads to the same talent.** -/
theorem drawReplacement_eq (hkeyed : rules.talents.Keyed Talent.id) (hclosed : rules.Closed)
    {talent : Talent} (htalent : talent ∈ rules.talents.values) {taken : List Int}
    (htaken : rules.HasTalents taken) (source : Source) :
    drawReplacement rules talent taken source =
      .ok (LifeCourse.drawReplacement rules talent taken source) := by
  rw [drawReplacement, LifeCourse.drawReplacement]
  cases hrule : talent.replacement with
  | none => rfl
  | some rule =>
    have hnamed : rules.HasTalents (rule.talents.map Prod.fst) :=
      hclosed.named (hkeyed.find?_of_mem_values htalent) hrule
    simp only [options_eq hkeyed htaken talent hnamed, bind, Except.bind, Source.pick_map]
    rcases hpick : source.pick (candidates rules rule (isCandidate rules talent taken)) with
      ⟨_ | drawn, source'⟩
    · rfl
    · obtain ⟨weight, hmem, -⟩ := Source.mem_of_pick_eq_some (congrArg Prod.fst hpick)
      obtain ⟨hvalue, -⟩ := of_mem_candidates hmem
      simp only [Option.map_some, theTalent_eq (hkeyed.find?_of_mem_values hvalue)]
      rfl

theorem walk_eq (hkeyed : rules.talents.Keyed Talent.id) (hclosed : rules.Closed) (steps : Nat)
    {talent : Talent} (htalent : talent ∈ rules.talents.values) {taken : List Int}
    (htaken : rules.HasTalents taken) (source : Source) :
    walk rules steps talent taken source =
      .ok (LifeCourse.walk rules steps talent taken source) := by
  induction steps generalizing talent taken source with
  | zero => rfl
  | succ steps ih =>
    rw [walk, LifeCourse.walk, drawReplacement_eq hkeyed hclosed htalent htaken]
    rcases hdraw : LifeCourse.drawReplacement rules talent taken source with ⟨_ | next, source'⟩
    · rfl
    · obtain ⟨hvalue, -, -⟩ := of_drawReplacement hdraw
      have hkept := htaken.filter (· != talent.id)
      have hrest := ih hvalue (hkept.concat (hkeyed.find?_of_mem_values hvalue)) source'
      simp only [bind, Except.bind, hrest]
      rfl

theorem settle_eq (hkeyed : rules.talents.Keyed Talent.id) (hclosed : rules.Closed)
    {survivor : Talent} (hsurvivor : survivor ∈ rules.talents.values) {state : SettlingState}
    (htaken : rules.HasTalents state.taken) :
    settle rules survivor state = .ok (LifeCourse.settle rules survivor state) := by
  rw [settle, LifeCourse.settle, walk_eq hkeyed hclosed _ hsurvivor htaken]
  split
  · rfl
  · rfl

theorem settleEach_eq (hkeyed : rules.talents.Keyed Talent.id) (hclosed : rules.Closed)
    {coming : List Talent} (hcoming : ∀ talent ∈ coming, talent ∈ rules.talents.values)
    {state : SettlingState} (htaken : rules.HasTalents state.taken) :
    settleEach rules coming state = .ok (LifeCourse.settleEach rules coming state) := by
  induction coming generalizing state with
  | nil => rfl
  | cons survivor rest ih =>
    obtain ⟨hsurvivor, hrest⟩ := List.forall_mem_cons.mp hcoming
    rcases hsettle : LifeCourse.settle rules survivor state with ⟨settling, state'⟩
    obtain ⟨⟨steps, source, hwalk⟩, -⟩ := LifeCourse.settle_eq hsettle
    have htaken' : rules.HasTalents state'.taken := hasTalents_walk hkeyed hwalk htaken
    rw [settleEach, settle_eq hkeyed hclosed hsurvivor htaken, settleEach_cons, hsettle]
    simp only [bind, Except.bind, ih hrest htaken']
    rfl

/-- **The talents are settled alike.** -/
theorem resolve_eq (hkeyed : rules.talents.Keyed Talent.id) (hclosed : rules.Closed)
    (ids : List Int) (person : Person) (source : Source) :
    resolve rules ids person source = .ok (LifeCourse.resolve rules ids person source) := by
  rw [resolve, LifeCourse.resolve]
  cases hselection : rules.select ids with
  | error failure => rfl
  | ok selection =>
    have htaken : rules.HasTalents ((survivors selection).map Talent.id) :=
      (harmony_survivors hkeyed hselection).known
    have hsettle : settleEach rules (survivors selection)
        ⟨(survivors selection).map Talent.id, .empty, person, source⟩ = .ok _ :=
      settleEach_eq hkeyed hclosed (mem_values_of_mem_survivors hselection) htaken
    simp only [hsettle, bind, Except.bind]
    rfl

/-! ## Years -/

theorem unlockOne_eq {id : Int} {talent : Talent} (hfind : rules.talents.find? id = some talent)
    {state : Tracker × Person} (hactive : rules.HasTalents state.1.active) :
    unlockOne rules state id = .ok (Tracker.unlockOne rules state id) ∧
      rules.HasTalents (Tracker.unlockOne rules state id).1.active := by
  obtain ⟨tracker, person⟩ := state
  have hclash : clashes rules tracker.active talent = .ok (!tracker.admits rules talent) := by
    rw [clashes_eq hactive, Tracker.admits, Bool.not_not]
  simp only [unlockOne, Tracker.unlockOne, theTalent_eq hfind, hclash, hfind, bind, Except.bind]
  split
  · exact ⟨rfl, hactive⟩
  · cases tracker.admits rules talent with
    | true => exact ⟨rfl, hactive.concat hfind⟩
    | false => exact ⟨rfl, hactive⟩

theorem unlock_eq {ids : List Int} (hids : rules.HasTalents ids) {tracker : Tracker}
    (hactive : rules.HasTalents tracker.active) (person : Person) :
    unlock rules tracker ids person = .ok (tracker.unlock rules ids person) ∧
      rules.HasTalents (tracker.unlock rules ids person).1.active := by
  have hall : ∀ state : Tracker × Person, rules.HasTalents state.1.active →
      ids.foldlM (unlockOne rules) state = .ok (ids.foldl (Tracker.unlockOne rules) state) ∧
        rules.HasTalents (ids.foldl (Tracker.unlockOne rules) state).1.active := by
    induction ids with
    | nil => exact fun _ hstate => ⟨rfl, hstate⟩
    | cons id rest ih =>
      intro state hstate
      obtain ⟨⟨talent, hfind⟩, hrest⟩ := List.forall_mem_cons.mp hids
      obtain ⟨hone, hnext⟩ := unlockOne_eq hfind hstate
      rw [List.foldlM_cons, hone, List.foldl_cons]
      exact ih hrest _ hnext
  exact hall (tracker, person) hactive

theorem activateEach_eq {ids : List Int} (hids : rules.HasTalents ids) (tracker : Tracker)
    (person : Person) (source : Source) :
    activateEach rules ids tracker person source =
      .ok (Tracker.activateEach rules ids tracker person source) := by
  induction ids generalizing tracker person source with
  | nil => rfl
  | cons id rest ih =>
    obtain ⟨⟨talent, hfind⟩, hrest⟩ := List.forall_mem_cons.mp hids
    rw [activateEach, Tracker.activateEach, theTalent_eq hfind, hfind]
    simp only [bind, Except.bind, ih hrest]
    split
    · rfl
    · rfl

/-- **The same event is chosen.**  Up to the first entry that needs no draw, the eligible entries are
gathered behind those before. -/
theorem chooseFrom_eq (age : Int) (ids : List Int) {pool : List PoolEntry}
    (hpool : ∀ entry ∈ pool, ∃ event, rules.events.find? entry.event = some event)
    (person : Person) (source : Source) (drawn : List (Int × Float)) :
    chooseFrom rules person source pool drawn =
      .ok (match (eligibleEntries rules ⟨age, ids, pool⟩ person).find?
          fun entry => entry.1.noRandom with
        | some entry => (some entry.2.event, source)
        | none => source.pick (drawn ++ (eligibleEntries rules ⟨age, ids, pool⟩ person).map
            fun entry => (entry.2.event, entry.2.weight))) := by
  induction pool generalizing drawn with
  | nil =>
    show _ = Except.ok (source.pick (drawn ++ []))
    rw [List.append_nil]
    rfl
  | cons entry rest ih =>
    obtain ⟨⟨event, hfind⟩, hrest⟩ := List.forall_mem_cons.mp hpool
    rw [chooseFrom, theEvent_eq hfind]
    simp only [bind, Except.bind, ih hrest]
    cases heligible : event.isEligible person.lookup with
    | false =>
      have hskip : eligibleEntries rules ⟨age, ids, entry :: rest⟩ person =
          eligibleEntries rules ⟨age, ids, rest⟩ person :=
        List.filterMap_cons_none (by simp [hfind, heligible])
      rw [hskip]
      rfl
    | true =>
      have htake : eligibleEntries rules ⟨age, ids, entry :: rest⟩ person =
          (event, entry) :: eligibleEntries rules ⟨age, ids, rest⟩ person :=
        List.filterMap_cons_some (by simp [hfind, heligible])
      rw [htake, List.find?_cons, List.map_cons]
      cases event.noRandom with
      | true => rfl
      | false =>
        rw [List.append_assoc]
        rfl

/-- An event leads on to an event that is there. -/
theorem exists_of_next? (hclosed : rules.Closed) {id : Int} {event : Event}
    (hfind : rules.events.find? id = some event) {lookup : Lookup} {next : Int}
    (hnext : event.next? lookup = some next) :
    ∃ following, rules.events.find? next = some following := by
  have hrefers : event.Refers ⟨.event, next⟩ := by
    rcases (Event.next?_eq_some_iff.mp hnext).branch_or_followUp with ⟨branch, hbranch, rfl⟩ | hfollow
    · exact .branch hbranch
    · exact .followUp hfollow
  exact hclosed _ (.event hfind hrefers)

theorem chainFrom_eq (hclosed : rules.Closed) (links : Nat) {id : Int}
    (hid : ∃ event, rules.events.find? id = some event) (person : Person) (source : Source) :
    chainFrom rules links id person source =
      .ok (LifeCourse.chainFrom rules links id person source) := by
  induction links generalizing id person source with
  | zero => rfl
  | succ links ih =>
    obtain ⟨event, hfind⟩ := hid
    rw [chainFrom, LifeCourse.chainFrom, theEvent_eq hfind, hfind]
    simp only [bind, Except.bind]
    generalize (person.recordEvent id).applyIfAny event.effect source = result
    cases hnext : event.next? result.1.lookup with
    | none => rfl
    | some next =>
      simp only [ih (exists_of_next? hclosed hfind hnext)]
      rfl

/-- The event that is chosen is one of the pool. -/
theorem exists_of_chooseEvent {slot : AgeSlot} {person : Person} {source source' : Source}
    {first : Int} (h : chooseEvent rules slot person source = (some first, source')) :
    ∃ event, rules.events.find? first = some event := by
  obtain ⟨entry, -, event, hoffers, rfl⟩ := exists_offers_of_chooseEvent (congrArg Prod.fst h)
  exact ⟨event, hoffers.known⟩

theorem ageChain_eq (hclosed : rules.Closed) {age : Int} {slot : AgeSlot}
    (hslot : rules.ages.find? age = some slot) (person : Person) (source : Source) :
    ageChain rules slot person source = .ok (LifeCourse.ageChain rules slot person source) := by
  have hchoose : chooseFrom rules person source slot.pool [] =
      .ok (chooseEvent rules slot person source) :=
    chooseFrom_eq slot.age slot.talents (hclosed.pooled hslot) person source []
  rw [ageChain, LifeCourse.ageChain, hchoose]
  rcases hchosen : chooseEvent rules slot person source with ⟨_ | first, source'⟩
  · rfl
  · exact chainFrom_eq hclosed _ (exists_of_chooseEvent hchosen) person source'

/-- **A year is the same.** -/
theorem liveYear_eq (hclosed : rules.Closed) (isLast : Bool) {standing : Standing}
    (hactive : rules.HasTalents standing.tracker.active) (source : Source) :
    liveYear rules isLast standing source =
      .ok (LifeCourse.liveYear rules isLast standing source) := by
  rw [liveYear, LifeCourse.liveYear]
  cases hslot : rules.ages.find? (standing.person.nextYear.current .age) with
  | none =>
    simp only [bind, Except.bind, Tracker.activate, activateEach_eq hactive]
    rfl
  | some slot =>
    obtain ⟨hunlock, hunlocked⟩ :=
      unlock_eq (hclosed.unlocked hslot) hactive standing.person.nextYear
    simp only [bind, Except.bind, Tracker.activate, hunlock, activateEach_eq hunlocked,
      ageChain_eq hclosed hslot]
    rfl

theorem liveYears_eq (hclosed : rules.Closed) (left : Nat) {standing : Standing}
    (hactive : rules.HasTalents standing.tracker.active) (source : Source) :
    liveYears rules left standing source =
      .ok (LifeCourse.liveYears rules left standing source) := by
  induction left generalizing standing source with
  | zero => rfl
  | succ left ih =>
    rw [liveYears, LifeCourse.liveYears, liveYear_eq hclosed _ hactive]
    rcases hyear : LifeCourse.liveYear rules (left == 0) standing source with ⟨year, source'⟩
    have hnext := (passage_liveYear hyear).1.last_of_step (fun hstep hs => hstep.hasTalents hs)
      hactive
    simp only [bind, Except.bind, ih hnext]
    split
    · rfl
    · rfl

/-- **An exacting life is the life itself**, if the rules are closed. -/
theorem live_eq (hkeyed : rules.talents.Keyed Talent.id) (hclosed : rules.Closed)
    (request : Request) (source : Source) :
    live rules request source = .ok (LifeCourse.live rules request source) := by
  rw [live, LifeCourse.live, resolve_eq hkeyed hclosed]
  cases hresolve : LifeCourse.resolve rules request.talents (request.person rules.settings)
      source with
  | error failure => rfl
  | ok resolved =>
    obtain ⟨resolution, source'⟩ := resolved
    obtain ⟨-, hharmony, -⟩ :=
      talents_of_resolve hkeyed (request.person_eq rules.settings).1 hresolve
    have hopening : rules.HasTalents (Standing.check ⟨resolution.person, resolution.tracker,
      .ofHistory request.achieved⟩ rules .start).tracker.active := hharmony.known
    simp only [bind, Except.bind, liveSettled, LifeCourse.liveSettled,
      liveYears_eq hclosed _ hopening]
    rfl

end Exacting

/-! ## How chains end -/

/-- A chain goes as far as it leads, or as far as the settings allow. -/
def Ruleset.Exhausts (rules : Ruleset) (chain : List Link) : Prop :=
  chain.length = rules.settings.maxChainDepth ∨
    ∃ last, chain.getLast? = some last ∧ last.event.next? last.person.lookup = none

/-- **A chain ends at its bound or where nothing follows**, if every event that is led to is
there. -/
theorem chainFrom_ends (hclosed : rules.Closed) (links : Nat) {id : Int}
    (hid : ∃ event, rules.events.find? id = some event) (person : Person) (source : Source) :
    (chainFrom rules links id person source).1.length = links ∨
      ∃ last, (chainFrom rules links id person source).1.getLast? = some last ∧
        last.event.next? last.person.lookup = none := by
  induction links generalizing id person source with
  | zero => exact .inl rfl
  | succ links ih =>
    obtain ⟨event, hfind⟩ := hid
    rw [chainFrom, hfind]
    simp only
    generalize (person.recordEvent id).applyIfAny event.effect source = result
    cases hnext : event.next? result.1.lookup with
    | none => exact .inr ⟨_, rfl, hnext⟩
    | some next =>
      rcases ih (Exacting.exists_of_next? hclosed hfind hnext) result.1 result.2 with
        hlength | ⟨last, hlast, hends⟩
      · exact .inl (congrArg Nat.succ hlength)
      · refine .inr ⟨last, ?_, hends⟩
        rw [List.getLast?_cons, hlast]
        rfl

/-- The chain of an event that was chosen has a link, and is exhausted. -/
theorem exhausts_of_chooseEvent (hvalid : rules.settings.Valid) (hclosed : rules.Closed)
    {slot : AgeSlot} {person : Person} {source source' : Source} {first : Int}
    (h : chooseEvent rules slot person source = (some first, source')) :
    (ageChain rules slot person source).1 ≠ [] ∧
      rules.Exhausts (ageChain rules slot person source).1 := by
  have hchain : ageChain rules slot person source = fireEvent rules first person source' := by
    rw [ageChain, h]
  rw [hchain]
  have hends := chainFrom_ends hclosed rules.settings.maxChainDepth
    (Exacting.exists_of_chooseEvent h) person source'
  refine ⟨fun hnil => ?_, hends⟩
  rw [fireEvent] at hnil
  rw [hnil] at hends
  rcases hends with hlength | ⟨last, hlast, -⟩
  · have hdepth := hvalid.maxChainDepth
    rw [← hlength] at hdepth
    exact absurd hdepth (by decide)
  · cases hlast

/-- The chain of a year is exhausted, or no event was chosen. -/
theorem exhausts_of_liveYear (hvalid : rules.settings.Valid) (hclosed : rules.Closed)
    {isLast : Bool} {before : Standing} {source source' : Source} {year : Year}
    (h : liveYear rules isLast before source = (year, source')) :
    year.chain = [] ∨ rules.Exhausts year.chain := by
  obtain ⟨tracker, person, source₁, -, hchain, -⟩ := liveYear_parts h
  rw [yearChain] at hchain
  split at hchain
  · rename_i slot _
    rcases hchoose : chooseEvent rules slot person source₁ with ⟨_ | first, source₂⟩
    · rw [ageChain, hchoose] at hchain
      exact .inl (congrArg Prod.fst hchain).symm
    · have hexhausts := (exhausts_of_chooseEvent hvalid hclosed hchoose).2
      rw [hchain] at hexhausts
      exact .inr hexhausts
  · exact .inl (congrArg Prod.fst hchain).symm

/-- **Rules of which the report names nothing unknown are lived by without missing anything.**  The
report names nothing unknown exactly if every id in a list of excluded talents, of named replacements
or of unlocked talents, in a branch, in a follow-up or in a pool has its entity.  Then no life, of
whatever request and source, looks an id up that names nothing.  So a chain is begun with every event
that is chosen, and it ends only where nothing follows or where the bound is reached. -/
theorem lives_miss_nothing (h : rules.Loaded) :
    (Lint.Clean rules ↔ rules.Closed) ∧
    (Lint.Clean rules →
      (∀ request source, Exacting.live rules request source = .ok (live rules request source)) ∧
      (∀ slot person source first source',
        chooseEvent rules slot person source = (some first, source') →
        (ageChain rules slot person source).1 ≠ [] ∧
          rules.Exhausts (ageChain rules slot person source).1) ∧
      ∀ request source life source', live rules request source = (.ok life, source') →
        ∀ year ∈ life.years, year.chain = [] ∨ rules.Exhausts year.chain) := by
  refine ⟨Lint.clean_iff_closed, fun hclean => ?_⟩
  have hclosed := Lint.clean_iff_closed.mp hclean
  have hvalid := h.coherent.settings
  refine ⟨Exacting.live_eq h.coherent.talents hclosed,
    fun _ _ _ _ _ => exhausts_of_chooseEvent hvalid hclosed, fun _ _ _ _ hlive => ?_⟩
  obtain ⟨source₁, -, -, hyears, -⟩ := live_eq_ok hlive
  exact hyears.forall_year (exhausts_of_liveYear hvalid hclosed)

/-! ## A village with a recluse -/

/-- A draft of one more talent, which excludes those of the village. -/
def recluseDraft : Draft where
  talents := [("3", { exclude := some [1, 2] })]

/-- The rules of the village with that talent. -/
def recluseRules : Ruleset :=
  villageRules.merge { Ruleset.standard with
    talents := .ofList [(3, { Talent.ofName 3 "" with exclude := [1, 2] })] }

/-- The village with its recluse refers to others in every way there is, and nothing is missed. -/
theorem lives_miss_nothing_recluse :
    recluseRules.Loaded ∧ Lint.Clean recluseRules ∧ recluseRules.Closed ∧
    Exacting.live recluseRules (Request.empty.withTalents [1, 3]) (.seeded 0) =
      .ok (live recluseRules (Request.empty.withTalents [1, 3]) (.seeded 0)) := by
  have hrecluse : recluseDraft.build = .ok { Ruleset.standard with
      talents := .ofList [(3, { Talent.ofName 3 "" with exclude := [1, 2] })] } := rfl
  have hloaded : recluseRules.Loaded := .merge (.build build_villageDraft) (.build hrecluse)
  have hreport : Lint.report recluseRules = [] := rfl
  have hclean : Lint.Clean recluseRules := by
    intro issue hmem
    rw [hreport] at hmem
    cases hmem
  obtain ⟨hiff, hlives⟩ := lives_miss_nothing hloaded
  exact ⟨hloaded, hclean, hiff.mp hclean, (hlives hclean).1 _ _⟩

/-- Where the pool of an age names no event of the rules, the life goes on and the exacting life
does not. -/
example :
    let rules := { Ruleset.standard with
      ages := .ofList [(0, ⟨0, [], [⟨9, 1⟩]⟩)]
      settings := { Settings.standard with
        terminalAge := 0, terminalAge_le := Range.zero_le_greatest } }
    (live rules .empty (.seeded 0)).1.toBool = true ∧
      Exacting.live rules .empty (.seeded 0) = .error ⟨.event, 9⟩ := by
  exact ⟨rfl, rfl⟩

end LifeCourse
