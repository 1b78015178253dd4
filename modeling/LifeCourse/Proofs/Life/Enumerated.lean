import LifeCourse.Life.Session
import LifeCourse.Proofs.Life.Harmony
import LifeCourse.Proofs.Life.Moments
import LifeCourse.Proofs.Life.Settling
import LifeCourse.Proofs.Rules.Enumeration

/-!
# Lives under tables in any order

A life reads its tables by key, except in two places.  Who may replace a talent by grade is collected
from all talents, and the place of a candidate among the others decides whom a word of the source
stands for.  The achievements are considered one after another, and one that is unlocked is seen by
the next.  In the first place the ids are collected and sorted for each draw.  In the second they are
read from the list that is kept beside the tables, and looked up one by one.

This is how a life is lived here for an `Enumeration` of the tables: a draw goes by the enumeration
(`Enumeration.options`), a checkpoint by the list that belongs to it (`Standing.checkBy`), the
functions around them are built on those as the functions of a life are, and everything else asks the
rules by key.

## Why it is the same life

The options of a draw are the candidates with their ids in place of the talents
(`Enumeration.options_eq`), and a draw does not look at what it draws (`Source.pick_map`).  An id
leads back to its talent because each talent stands under its own id; this is where the keys count.

A checkpoint has nothing of the enumeration but the list.  If that was collected from the table as it
is, every achievement is looked up in turn (`Standing.checkBy_eq`).  From there on each function is
the one of a life, by its own recursion.  A list that was collected before the table changed would be
followed as it is: lives are then still the same under all orders of the tables, as long as the list
is.
-/

namespace LifeCourse

/-! ## Draws -/

namespace Source

variable {α β : Type}

theorem landing_map (f : α → β) (target total : Float) (option : α) (rest : List (α × Float)) :
    landing target total (f option) (rest.map fun other => (f other.1, other.2)) =
      f (landing target total option rest) := by
  induction rest generalizing total option with
  | nil => rfl
  | cons other rest ih =>
    rw [List.map_cons, landing, landing, ih]
    split <;> rfl

/-- **A draw does not look at what it draws.** -/
theorem pick_map (f : α → β) (options : List (α × Float)) (source : Source) :
    source.pick (options.map fun option => (f option.1, option.2)) =
      ((source.pick options).1.map f, (source.pick options).2) := by
  have hfilter : ((options.map fun option => (f option.1, option.2)).filter
      fun option => drawable option.2) =
        (options.filter fun option => drawable option.2).map fun option => (f option.1, option.2) :=
    List.filter_map
  rw [pick, pick, hfilter]
  cases options.filter fun option => drawable option.2 with
  | nil => rfl
  | cons head rest =>
    have hshares : ∀ largest : Float,
        (rest.map fun option => (f option.1, option.2)).map
            (fun option => (option.1, option.2 / largest)) =
          (rest.map fun option => (option.1, option.2 / largest)).map
            fun option => (f option.1, option.2) := by
      intro largest
      rw [List.map_map, List.map_map]
      rfl
    simp only [List.map_cons, hshares, List.foldl_map, landing_map, Option.map_some]

end Source

/-! ## A life that goes by a list -/

/-- The standing after a checkpoint at which the achievements of a list are looked up and considered,
one after another. -/
def Standing.checkBy (standing : Standing) (rules : Ruleset) (order : List Int)
    (opportunity : Opportunity) : Standing :=
  let (ledger, person) := order.foldl (fun state id =>
    match rules.achievements.find? id with
    | none => state
    | some achievement => Ledger.consider opportunity state achievement)
    (standing.ledger, standing.person)
  { standing with ledger := ledger, person := person }

/-- Lives one year. -/
def liveYearBy (rules : Ruleset) (order : List Int) (isLast : Bool) (standing : Standing)
    (source : Source) : Year × Source :=
  let person := standing.person.nextYear
  let age := person.current .age
  let slot := rules.ages.find? age
  let (tracker, person) := match slot with
    | some slot => standing.tracker.unlock rules slot.talents person
    | none => (standing.tracker, person)
  let (firings, tracker, person, source) := tracker.activate rules person source
  let (chain, person, source) := match slot with
    | some slot => ageChain rules slot person source
    | none => ([], person, source)
  let isEnd := endsLife chain || person.isDead || person.atTerminalAge || isLast
  let after := Standing.checkBy ⟨person, tracker, standing.ledger⟩ rules order .trajectory
  (⟨age, firings, chain, person, isEnd, after⟩, source)

/-- Lives until a year ends the life, or no years are left. -/
def liveYearsBy (rules : Ruleset) (order : List Int) :
    Nat → Standing → Source → List Year × Source
  | 0, _, source => ([], source)
  | left + 1, standing, source =>
    let (year, source) := liveYearBy rules order (left == 0) standing source
    if year.isEnd then ([year], source)
    else
      let (years, source) := liveYearsBy rules order left year.standing source
      (year :: years, source)

/-- Lives a life whose talents are settled. -/
def liveSettledBy (rules : Ruleset) (order : List Int) (achieved : List (List Int))
    (resolution : Resolution) (source : Source) : Life × Source :=
  let opening := Standing.checkBy ⟨resolution.person, resolution.tracker, .ofHistory achieved⟩
    rules order .start
  let (years, source) := liveYearsBy rules order rules.settings.maxYears opening source
  let closing := (standingAfter opening years).checkBy rules order .summary
  (⟨resolution, opening, years, closing⟩, source)

section Collected

variable {rules : Ruleset} {order : List Int} (hcollects : rules.achievements.Collects order)
include hcollects

/-- **By a list that was collected the achievements are considered alike.** -/
theorem Standing.checkBy_eq (standing : Standing) (opportunity : Opportunity) :
    standing.checkBy rules order opportunity = standing.check rules opportunity := by
  have hfold : ∀ state : Ledger × Person,
      rules.achievements.keys.foldl (fun state id =>
        match rules.achievements.find? id with
        | none => state
        | some achievement => Ledger.consider opportunity state achievement) state =
      rules.achievements.values.foldl (Ledger.consider opportunity) state := by
    intro state
    rw [Table.keys, Table.values, List.foldl_map, List.foldl_map]
    refine List.foldl_ext _ _ state fun state entry hentry => ?_
    rw [Table.find?_eq_some_iff.mpr hentry]
  rw [checkBy, Standing.check, Ledger.check, hcollects.eq_keys, hfold]

theorem liveYearBy_eq (isLast : Bool) (standing : Standing) (source : Source) :
    liveYearBy rules order isLast standing source = liveYear rules isLast standing source := by
  rw [liveYearBy, liveYear]
  cases rules.ages.find? (standing.person.nextYear.current .age) with
  | none => simp only [Standing.checkBy_eq hcollects]
  | some slot => simp only [Standing.checkBy_eq hcollects]

theorem liveYearsBy_eq (left : Nat) (standing : Standing) (source : Source) :
    liveYearsBy rules order left standing source = liveYears rules left standing source := by
  induction left generalizing standing source with
  | zero => rfl
  | succ left ih =>
    rw [liveYearsBy, liveYears, liveYearBy_eq hcollects]
    simp only [ih]

/-- **A life goes by the list as by the table.** -/
theorem liveSettledBy_eq (achieved : List (List Int)) (resolution : Resolution) (source : Source) :
    liveSettledBy rules order achieved resolution source =
      liveSettled rules achieved resolution source := by
  rw [liveSettledBy, liveSettled]
  simp only [Standing.checkBy_eq hcollects, liveYearsBy_eq hcollects]

end Collected

namespace Enumeration

variable {rules : Ruleset} (e : Enumeration rules)

/-! ## A life under an enumeration -/

/-- The ids of the eligible talents of a grade: collected as they come, then sorted. -/
def ofGrade (grade : Int) (eligible : Talent → Bool) : List Int :=
  sortOn id (((e.talents.map Prod.snd).filter fun talent =>
    talent.grade == grade && eligible talent).map Talent.id)

/-- The ids among which a replacement is drawn, with their weights. -/
def options (rule : Replacement) (eligible : Talent → Bool) : List (Int × Float) :=
  (rule.grades.flatMap fun entry => (e.ofGrade entry.1 eligible).map fun id => (id, entry.2)) ++
    rule.talents.filterMap fun entry =>
      ((rules.talents.find? entry.1).filter eligible).map fun _ => entry

/-- Draws an id and looks it up. -/
def drawReplacement (talent : Talent) (taken : List Int) (source : Source) :
    Option Talent × Source :=
  match talent.replacement with
  | none => (none, source)
  | some rule =>
    let (id, source) := source.pick (e.options rule (isCandidate rules talent taken))
    (id.bind rules.talents.find?, source)

/-- The talents that a walk of replacements comes to, with what is taken after it. -/
def walk : Nat → Talent → List Int → Source → List Talent × List Int × Source
  | 0, _, taken, source => ([], taken, source)
  | steps + 1, talent, taken, source =>
    match e.drawReplacement talent taken source with
    | (none, source) => ([], taken, source)
    | (some next, source) =>
      let taken := taken.filter (· != talent.id) ++ [next.id]
      let (path, result) := walk steps next taken source
      (next :: path, result)

/-- Settles one survivor. -/
def settle (survivor : Talent) (state : SettlingState) : Settling × SettlingState :=
  if survivor.holds state.person.lookup then
    let (path, taken, source) :=
      e.walk rules.settings.maxChainDepth survivor state.taken state.source
    let target := path.getLast?.getD survivor
    let state := SettlingState.join { state with taken := taken, source := source } target
    let fires := (target.id == survivor.id || target.holds state.person.lookup) &&
      !state.tracker.isSpent target
    let state := if fires then state.fire target else state
    (⟨survivor, path, fires, state.person⟩, state)
  else
    let state := state.join survivor
    (⟨survivor, [], false, state.person⟩, state)

/-- Settles survivors in order. -/
def settleEach : List Talent → SettlingState → List Settling × SettlingState
  | [], state => ([], state)
  | survivor :: rest, state =>
    let (settling, state) := e.settle survivor state
    let (settlings, state) := settleEach rest state
    (settling :: settlings, state)

/-- Settles a selection of talents. -/
def resolve (ids : List Int) (person : Person) (source : Source) :
    Except Failure (Resolution × Source) := do
  let kept := survivors (← rules.select ids)
  let (settlings, state) :=
    e.settleEach kept ⟨kept.map Talent.id, .empty, person, source⟩
  return (⟨settlings, state.tracker, state.person⟩, state.source)

/-- Lives the life that a request asks for. -/
def live (request : Request) (source : Source) : Except Failure Life × Source :=
  match e.resolve request.talents (request.person rules.settings) source with
  | .error failure => (.error failure, source)
  | .ok (resolution, source) =>
    let (life, source) := liveSettledBy rules e.order request.achieved resolution source
    (.ok life, source)

/-- The session of the life that a request asks for. -/
def simulateWith (request : Request) (source : Source) : Except Failure Session × Source :=
  let (life, source) := e.live request source
  (life.map (Session.ofLife rules), source)

/-! ## Draws in any order -/

section Draws

variable (hkeyed : rules.talents.Keyed Talent.id)
include hkeyed

/-- The ids of a grade are those of its talents by ascending id. -/
theorem ofGrade_eq (grade : Int) (eligible : Talent → Bool) :
    e.ofGrade grade eligible =
      (rules.talents.values.filter fun talent =>
        talent.grade == grade && eligible talent).map Talent.id := by
  refine sortOn_eq_of_perm ?_ ?_
  · exact ((e.enumerates_talents.perm.map Prod.snd).filter _).map Talent.id
  · have hkeys := rules.talents.keys_ascending
    rw [← hkeyed.map_values] at hkeys
    exact hkeys.sublist (List.filter_sublist.map Talent.id)

/-- **The options of a draw are the candidates.** -/
theorem options_eq (rule : Replacement) (eligible : Talent → Bool) :
    e.options rule eligible =
      (candidates rules rule eligible).map fun candidate => (candidate.1.id, candidate.2) := by
  rw [options, candidates, List.map_append, List.map_flatMap, List.map_filterMap]
  congr 1
  · refine List.flatMap_congr fun entry _ => ?_
    rw [e.ofGrade_eq hkeyed, List.map_map, List.map_map]
    rfl
  · refine List.filterMap_congr fun entry _ => ?_
    cases hfind : rules.talents.find? entry.1 with
    | none => rfl
    | some talent =>
      have hid := hkeyed _ talent hfind
      rw [Option.filter_some]
      split
      · rw [Option.map_some, Option.map_some, Option.map_some, hid]
      · rfl

/-- A draw leads to the same talent. -/
theorem drawReplacement_eq (talent : Talent) (taken : List Int) (source : Source) :
    e.drawReplacement talent taken source = LifeCourse.drawReplacement rules talent taken source := by
  rw [drawReplacement, LifeCourse.drawReplacement]
  cases talent.replacement with
  | none => rfl
  | some rule =>
    simp only [e.options_eq hkeyed, Source.pick_map]
    rcases hpick : source.pick (candidates rules rule (isCandidate rules talent taken)) with
      ⟨_ | drawn, source'⟩
    · rfl
    · -- the id that is drawn leads back to its candidate, since that stands under its own id
      obtain ⟨weight, hmem, -⟩ := Source.mem_of_pick_eq_some (congrArg Prod.fst hpick)
      obtain ⟨hvalue, -⟩ := of_mem_candidates hmem
      simp only [Option.map_some, Option.bind_some, hkeyed.find?_of_mem_values hvalue]

theorem walk_eq (steps : Nat) (talent : Talent) (taken : List Int) (source : Source) :
    e.walk steps talent taken source = LifeCourse.walk rules steps talent taken source := by
  induction steps generalizing talent taken source with
  | zero => rfl
  | succ steps ih =>
    rw [walk, LifeCourse.walk, e.drawReplacement_eq hkeyed]
    rcases LifeCourse.drawReplacement rules talent taken source with ⟨_ | next, source'⟩
    · rfl
    · simp only [ih]

theorem settle_eq (survivor : Talent) (state : SettlingState) :
    e.settle survivor state = LifeCourse.settle rules survivor state := by
  rw [settle, LifeCourse.settle, e.walk_eq hkeyed]

theorem settleEach_eq (coming : List Talent) (state : SettlingState) :
    e.settleEach coming state = LifeCourse.settleEach rules coming state := by
  induction coming generalizing state with
  | nil => rfl
  | cons survivor rest ih =>
    rw [settleEach, LifeCourse.settleEach, e.settle_eq hkeyed]
    simp only [ih]

/-- **The talents are settled alike.** -/
theorem resolve_eq (ids : List Int) (person : Person) (source : Source) :
    e.resolve ids person source = LifeCourse.resolve rules ids person source := by
  rw [resolve, LifeCourse.resolve]
  simp only [e.settleEach_eq hkeyed]

end Draws

/-! ## The same life -/

section Lives

variable (hkeyed : rules.talents.Keyed Talent.id)
include hkeyed

/-- **A life does not depend on the order of the tables**, if the list was collected from them. -/
theorem simulateWith_eq (hcollected : e.Collected) (request : Request) (source : Source) :
    e.simulateWith request source = LifeCourse.simulateWith rules request source := by
  rw [simulateWith, LifeCourse.simulateWith, live, LifeCourse.live, e.resolve_eq hkeyed]
  cases LifeCourse.resolve rules request.talents (request.person rules.settings) source with
  | error failure => rfl
  | ok resolved => simp only [liveSettledBy_eq hcollected]

end Lives

end Enumeration

end LifeCourse
