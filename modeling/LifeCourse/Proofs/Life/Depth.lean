import LifeCourse.Proofs.Life.EventLog

/-!
# The bound on chains

One setting bounds two loops, the chain of events of a year and the walk of replacements that
settles a talent.  It is meant as a guard against rules that lead in a circle: where no loop reaches
the bound, any greater one gives the same life.

## Where the bound is read

The rules with another bound (`Ruleset.withDepth`) have the same tables, and every function but the
two loops only reads tables.  Both loops count the bound down, so a greater one can only go on where
a smaller one breaks off: a chain under the smaller bound is the front of the one under the greater
and a loop that ends before its bound ends there under every greater bound, with the same person, the
same taken talents and the same source (`chainFrom_le`, `walk_eq_of_length_lt`).

The second fact is handed on from the loops to a year and to the settling of a talent, and from there
by induction to all years and all talents.  The chain of a year changes what later years read, so
the induction needs the whole result of a year to be the same, not only its chain.
-/

namespace LifeCourse

/-- The rules with another bound on chains. -/
def Ruleset.withDepth (rules : Ruleset) (depth : Nat) : Ruleset :=
  { rules with settings := { rules.settings with maxChainDepth := depth } }

/-- A life in which no walk of replacements and no chain of events has as many steps as a bound. -/
structure Life.Within (life : Life) (depth : Nat) : Prop where
  walks : ∀ settling ∈ life.resolution.settlings, settling.path.length < depth
  chains : ∀ year ∈ life.years, year.chain.length < depth

/-! ## What does not read the bound -/

section Tables

variable (rules : Ruleset) (depth : Nat)

@[simp] theorem Ruleset.talents_withDepth : (rules.withDepth depth).talents = rules.talents := rfl

@[simp] theorem Ruleset.events_withDepth : (rules.withDepth depth).events = rules.events := rfl

@[simp] theorem Ruleset.ages_withDepth : (rules.withDepth depth).ages = rules.ages := rfl

@[simp] theorem Ruleset.maxYears_withDepth :
    (rules.withDepth depth).settings.maxYears = rules.settings.maxYears := rfl

@[simp] theorem Ruleset.maxChainDepth_withDepth :
    (rules.withDepth depth).settings.maxChainDepth = depth := rfl

@[simp] theorem Ruleset.select_withDepth (ids : List Int) :
    (rules.withDepth depth).select ids = rules.select ids := rfl

@[simp] theorem drawReplacement_withDepth (talent : Talent) (taken : List Int) (source : Source) :
    drawReplacement (rules.withDepth depth) talent taken source =
      drawReplacement rules talent taken source := rfl

@[simp] theorem chooseEvent_withDepth (slot : AgeSlot) (person : Person) (source : Source) :
    chooseEvent (rules.withDepth depth) slot person source = chooseEvent rules slot person source :=
  rfl

@[simp] theorem Tracker.unlock_withDepth (tracker : Tracker) (ids : List Int) (person : Person) :
    tracker.unlock (rules.withDepth depth) ids person = tracker.unlock rules ids person := rfl

@[simp] theorem Standing.check_withDepth (standing : Standing) (opportunity : Opportunity) :
    standing.check (rules.withDepth depth) opportunity = standing.check rules opportunity := rfl

end Tables

variable {rules : Ruleset} {depth deeper : Nat}

/-! ## Chains -/

theorem chainFrom_withDepth (links : Nat) (id : Int) (person : Person) (source : Source) :
    chainFrom (rules.withDepth depth) links id person source =
      chainFrom rules links id person source := by
  induction links generalizing id person source with
  | zero => rfl
  | succ links ih =>
    rw [chainFrom, chainFrom, rules.events_withDepth]
    simp only [ih]

/-- The chain of an event depends on the tables and on the bound. -/
theorem fireEvent_withDepth (first : Int) (person : Person) (source : Source) :
    fireEvent (rules.withDepth depth) first person source =
      chainFrom rules depth first person source :=
  chainFrom_withDepth depth first person source

/-- **A smaller bound only cuts the chain off.**  The chain under it is the front of the one under a
greater bound, and if it ends before the bound, nothing is cut off. -/
theorem chainFrom_le {few many : Nat} (hle : few ≤ many) (id : Int) (person : Person)
    (source : Source) :
    (chainFrom rules few id person source).1 =
        (chainFrom rules many id person source).1.take few ∧
      ((chainFrom rules few id person source).1.length < few →
        chainFrom rules many id person source = chainFrom rules few id person source) := by
  -- both chains begin with the same event, which hands the same person and source on to the rest
  induction few generalizing many id person source with
  | zero => exact ⟨rfl, fun h => absurd h (Nat.not_lt_zero _)⟩
  | succ few ih =>
    obtain ⟨many, rfl⟩ : ∃ more, many = more + 1 := ⟨many - 1, by omega⟩
    rw [chainFrom, chainFrom]
    cases rules.events.find? id with
    | none => exact ⟨rfl, fun _ => rfl⟩
    | some event =>
      simp only
      generalize (person.recordEvent id).applyIfAny event.effect source = result
      cases event.next? result.1.lookup with
      | none => exact ⟨by simp only [List.take_succ_cons, List.take_nil], fun _ => rfl⟩
      | some next =>
        obtain ⟨htake, hsame⟩ := ih (Nat.le_of_succ_le_succ hle) next result.1 result.2
        simp only [List.take_succ_cons, List.length_cons]
        exact ⟨by rw [htake], fun h => by rw [hsame (Nat.lt_of_succ_lt_succ h)]⟩

/-! ## Walks -/

theorem walk_withDepth (steps : Nat) (talent : Talent) (taken : List Int) (source : Source) :
    walk (rules.withDepth depth) steps talent taken source =
      walk rules steps talent taken source := by
  induction steps generalizing talent taken source with
  | zero => rfl
  | succ steps ih =>
    rw [walk, walk, drawReplacement_withDepth]
    simp only [ih]

/-- **A walk that ends before its bound ends there under a greater one.** -/
theorem walk_eq_of_length_lt {few many : Nat} (hle : few ≤ many) (talent : Talent)
    (taken : List Int) (source : Source)
    (h : (walk rules few talent taken source).1.length < few) :
    walk rules many talent taken source = walk rules few talent taken source := by
  induction few generalizing many talent taken source with
  | zero => exact absurd h (Nat.not_lt_zero _)
  | succ few ih =>
    obtain ⟨many, rfl⟩ : ∃ more, many = more + 1 := ⟨many - 1, by omega⟩
    rw [walk] at h
    rw [walk, walk]
    rcases hdraw : drawReplacement rules talent taken source with ⟨_ | next, source'⟩
    · rfl
    · simp only [hdraw, List.length_cons] at h ⊢
      rw [ih (Nat.le_of_succ_le_succ hle) next _ source' (Nat.lt_of_succ_lt_succ h)]

/-! ## Settling -/

/-- A talent is settled alike if its walk does not come to the bound. -/
theorem settle_withDepth (hle : depth ≤ deeper) {survivor : Talent} {state : SettlingState}
    (h : (settle (rules.withDepth depth) survivor state).1.path.length < depth) :
    settle (rules.withDepth deeper) survivor state =
      settle (rules.withDepth depth) survivor state := by
  rw [settle] at h
  rw [settle, settle]
  simp only [Ruleset.maxChainDepth_withDepth, walk_withDepth] at h ⊢
  by_cases hholds : survivor.holds state.person.lookup = true
  · rw [if_pos hholds] at h
    rw [walk_eq_of_length_lt hle survivor state.taken state.source h]
  · rw [if_neg hholds, if_neg hholds]

theorem settleEach_withDepth (hle : depth ≤ deeper) (coming : List Talent)
    (state : SettlingState)
    (h : ∀ settling ∈ (settleEach (rules.withDepth depth) coming state).1,
      settling.path.length < depth) :
    settleEach (rules.withDepth deeper) coming state =
      settleEach (rules.withDepth depth) coming state := by
  induction coming generalizing state with
  | nil => rfl
  | cons survivor rest ih =>
    rw [settleEach_cons] at h
    obtain ⟨hfirst, hrest⟩ := List.forall_mem_cons.mp h
    rw [settleEach_cons, settleEach_cons, settle_withDepth hle hfirst, ih _ hrest]

/-- **The talents are settled alike.** -/
theorem resolve_withDepth (hle : depth ≤ deeper) (ids : List Int) (person : Person)
    (source : Source)
    (h : ∀ resolution source', resolve (rules.withDepth depth) ids person source =
      .ok (resolution, source') → ∀ settling ∈ resolution.settlings, settling.path.length < depth) :
    resolve (rules.withDepth deeper) ids person source =
      resolve (rules.withDepth depth) ids person source := by
  rw [resolve, rules.select_withDepth] at h
  rw [resolve, resolve, rules.select_withDepth, rules.select_withDepth]
  cases hselection : rules.select ids with
  | error failure =>
    show (Except.error failure : Except Failure (Resolution × Source)) = .error failure
    rfl
  | ok selection =>
    simp only [hselection, bind, Except.bind] at h ⊢
    rw [settleEach_withDepth hle _ _ (h _ _ rfl)]

/-! ## Years -/

theorem Tracker.activate_withDepth (tracker : Tracker) (person : Person) (source : Source) :
    tracker.activate (rules.withDepth depth) person source = tracker.activate rules person source := by
  unfold activate
  generalize tracker.active = ids
  induction ids generalizing tracker person source with
  | nil => rfl
  | cons id rest ih =>
    rw [activateEach, activateEach, rules.talents_withDepth]
    simp only [ih]

/-- An age brings the same chain if it does not come to the bound. -/
theorem ageChain_withDepth (hle : depth ≤ deeper) {slot : AgeSlot} {person : Person}
    {source : Source}
    (h : (ageChain (rules.withDepth depth) slot person source).1.length < depth) :
    ageChain (rules.withDepth deeper) slot person source =
      ageChain (rules.withDepth depth) slot person source := by
  rw [ageChain] at h
  rw [ageChain, ageChain]
  simp only [chooseEvent_withDepth, fireEvent_withDepth] at h ⊢
  rcases hchosen : chooseEvent rules slot person source with ⟨_ | first, source'⟩
  · rfl
  · simp only [hchosen] at h ⊢
    exact (chainFrom_le hle first person source').2 h

/-- **A year is the same** if its chain does not come to the bound. -/
theorem liveYear_withDepth (hle : depth ≤ deeper) {isLast : Bool} {standing : Standing}
    {source : Source}
    (h : (liveYear (rules.withDepth depth) isLast standing source).1.chain.length < depth) :
    liveYear (rules.withDepth deeper) isLast standing source =
      liveYear (rules.withDepth depth) isLast standing source := by
  rw [liveYear] at h
  rw [liveYear, liveYear]
  simp only [Ruleset.ages_withDepth, Tracker.unlock_withDepth, Tracker.activate_withDepth,
    Standing.check_withDepth] at h ⊢
  cases hslot : rules.ages.find? (standing.person.nextYear.current .age) with
  | none => rfl
  | some slot =>
    simp only [hslot] at h ⊢
    rw [ageChain_withDepth hle h]

theorem liveYears_withDepth (hle : depth ≤ deeper) (left : Nat) (standing : Standing)
    (source : Source)
    (h : ∀ year ∈ (liveYears (rules.withDepth depth) left standing source).1,
      year.chain.length < depth) :
    liveYears (rules.withDepth deeper) left standing source =
      liveYears (rules.withDepth depth) left standing source := by
  induction left generalizing standing source with
  | zero => rfl
  | succ left ih =>
    rw [liveYears] at h
    rw [liveYears, liveYears]
    have hfirst : (liveYear (rules.withDepth depth) (left == 0) standing source).1.chain.length <
        depth := by
      refine h _ ?_
      simp only
      split
      · exact List.mem_singleton_self _
      · exact List.mem_cons_self
    rw [liveYear_withDepth hle hfirst]
    simp only at h ⊢
    split
    · rfl
    · rename_i hmore
      rw [if_neg hmore] at h
      rw [ih _ _ fun year hyear => h year (List.mem_cons_of_mem _ hyear)]

/-! ## Lives -/

theorem liveSettled_withDepth (hle : depth ≤ deeper) (achieved : List (List Int))
    (resolution : Resolution) (source : Source)
    (h : ∀ year ∈ (liveSettled (rules.withDepth depth) achieved resolution source).1.years,
      year.chain.length < depth) :
    liveSettled (rules.withDepth deeper) achieved resolution source =
      liveSettled (rules.withDepth depth) achieved resolution source := by
  rw [liveSettled] at h
  rw [liveSettled, liveSettled]
  simp only [Standing.check_withDepth, Ruleset.maxYears_withDepth] at h ⊢
  rw [liveYears_withDepth hle _ _ _ h]

/-- The life under the smaller bound, once its talents are settled. -/
theorem fst_live_of_resolve {request : Request} {source source' : Source} {resolution : Resolution}
    (h : resolve rules request.talents (request.person rules.settings) source =
      .ok (resolution, source')) :
    (live rules request source).1 =
      .ok (liveSettled rules request.achieved resolution source').1 := by
  rw [live, h]

/-- **A life is the same** if nothing in it comes to the bound. -/
theorem live_withDepth (hle : depth ≤ deeper) {request : Request} {source : Source}
    (h : ∀ life, (live (rules.withDepth depth) request source).1 = .ok life → life.Within depth) :
    live (rules.withDepth deeper) request source = live (rules.withDepth depth) request source := by
  have hresolve : resolve (rules.withDepth deeper) request.talents
        (request.person (rules.withDepth deeper).settings) source =
      resolve (rules.withDepth depth) request.talents
        (request.person (rules.withDepth depth).settings) source :=
    resolve_withDepth hle request.talents _ source fun resolution source' hok =>
      (h _ (fst_live_of_resolve hok)).walks
  rw [live, live, hresolve]
  cases hok : resolve (rules.withDepth depth) request.talents
    (request.person (rules.withDepth depth).settings) source with
  | error failure => rfl
  | ok resolved =>
    have hchains := (h _ (fst_live_of_resolve hok)).chains
    simp only [liveSettled_withDepth hle request.achieved resolved.1 resolved.2 hchains]

/-- **The bound is only a guard.**  What an event leads to under a bound is the front of what it leads
to under a greater one, in its ids and in its lines.  And if neither a chain nor a walk of a life
comes to the bound, a greater one changes nothing: it is the same life and shows the same session, and
the same is drawn. -/
theorem withDepth_le (rules : Ruleset) {depth deeper : Nat} (hle : depth ≤ deeper) :
    (∀ (first : Int) (person : Person) (source : Source),
      (fireEvent (rules.withDepth depth) first person source).1 =
        (fireEvent (rules.withDepth deeper) first person source).1.take depth ∧
      (fireEvent (rules.withDepth depth) first person source).1.map Link.id =
        ((fireEvent (rules.withDepth deeper) first person source).1.map Link.id).take depth ∧
      (fireEvent (rules.withDepth depth) first person source).1.map Line.ofLink =
        ((fireEvent (rules.withDepth deeper) first person source).1.map Line.ofLink).take depth) ∧
    ∀ (request : Request) (source : Source),
      (∀ life, (live (rules.withDepth depth) request source).1 = .ok life → life.Within depth) →
      live (rules.withDepth deeper) request source =
        live (rules.withDepth depth) request source ∧
      simulateWith (rules.withDepth deeper) request source =
        simulateWith (rules.withDepth depth) request source := by
  refine ⟨fun first person source => ?_, fun request source h => ?_⟩
  · have htake : (fireEvent (rules.withDepth depth) first person source).1 =
        (fireEvent (rules.withDepth deeper) first person source).1.take depth := by
      rw [fireEvent_withDepth, fireEvent_withDepth]
      exact (chainFrom_le hle first person source).1
    exact ⟨htake, by rw [htake, List.map_take], by rw [htake, List.map_take]⟩
  · have hlive := live_withDepth hle h
    have hsession : Session.ofLife (rules.withDepth deeper) =
        Session.ofLife (rules.withDepth depth) := rfl
    refine ⟨hlive, ?_⟩
    rw [simulateWith, simulateWith, hlive, hsession]

/-! ## A chain of two events -/

/-- Rules in which birth brings an event that leads to another one, and the only talent would be
replaced by one that there is not. -/
def leadingRules : Ruleset where
  talents := .ofList [(1, { Talent.ofName 1 "" with replacement := some ⟨[], [(9, 1)]⟩ })]
  events := .ofList [
    (1, { Event.ofText 1 "" with noRandom := true, followUp := some (.event 2) }),
    (2, .ofText 2 "")]
  ages := .ofList [(0, ⟨0, [], [⟨1, 1⟩]⟩)]
  achievements := .empty
  rubrics := .empty
  settings := { Settings.standard with
    terminalAge := 0, terminalAge_le := Range.zero_le_greatest, maxChainDepth := 3 }

/-- The bound of three is not reached, so one of eight changes nothing; one of a single link would cut
the chain off after the first event. -/
theorem withDepth_le_leading :
    (∀ (person : Person) (source : Source),
      (fireEvent (leadingRules.withDepth 1) 1 person source).1.map Link.id = [1]) ∧
    (∃ life source', live (leadingRules.withDepth 3) (Request.empty.withTalents [1]) (.seeded 0) =
        (.ok life, source') ∧
      life.years.map Year.happened = [[1, 2]] ∧
      life.resolution.settlings.map (fun settling => settling.path.length) = [0]) ∧
    simulateWith (leadingRules.withDepth 8) (Request.empty.withTalents [1]) (.seeded 0) =
      simulateWith (leadingRules.withDepth 3) (Request.empty.withTalents [1]) (.seeded 0) := by
  have hlive : ∃ life source',
      live (leadingRules.withDepth 3) (Request.empty.withTalents [1]) (.seeded 0) =
        (.ok life, source') ∧
      life.years.map Year.happened = [[1, 2]] ∧
      life.resolution.settlings.map (fun settling => settling.path.length) = [0] :=
    ⟨_, _, rfl, rfl, rfl⟩
  refine ⟨fun person source => ?_, hlive, ?_⟩
  · rw [((withDepth_le leadingRules (by decide : 1 ≤ 3)).1 1 person source).2.1]
    rfl
  · refine ((withDepth_le leadingRules (by decide : 3 ≤ 8)).2 _ _ fun life hlife => ?_).2
    obtain ⟨_, source', hlive, hchains, hwalks⟩ := hlive
    rw [hlive] at hlife
    obtain rfl := Except.ok.inj hlife
    refine ⟨fun settling hmem => ?_, fun year hmem => ?_⟩
    · have hzero : settling.path.length ∈ [0] := hwalks ▸ List.mem_map_of_mem hmem
      rw [List.mem_singleton.mp hzero]
      decide
    · have htwo : year.happened ∈ [[1, 2]] := hchains ▸ List.mem_map_of_mem hmem
      rw [← List.length_map Link.id]
      show year.happened.length < 3
      rw [List.mem_singleton.mp htwo]
      decide

end LifeCourse
