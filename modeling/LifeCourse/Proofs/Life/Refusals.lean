import LifeCourse.Life.Session
import LifeCourse.Proofs.Life.Settling

/-!
# Requests that fail

A request fails if it selects a talent that the rules do not have, and for no other reason.  The
failure names the first such talent of the selection (`simulateWith_eq_error_iff`).

## That nothing has happened by then

Resolving a selection is a function from a person and a source, so it can only return what a failure
leaves behind or pass it over in silence.  It is therefore set beside a program that works on one
person and one source in place, reads the rules again in each of its passes, and could fail in the
middle of any of them (`resolveInPlace`).  The two agree (`start_resolveInPlace`).  The reason is the
first pass, which only looks ids up: a selection that comes through it has nothing left to fail on.

## Requests that share a source

Requests are answered one after another from one source.  One that fails leaves it alone, so it might
as well not have been made (`simulateEach_answered`).
-/

namespace LifeCourse

variable {rules : Ruleset}

/-! ## Unknown talents -/

/-- The first id of a selection that names no talent. -/
def Ruleset.firstUnknown? (rules : Ruleset) (ids : List Int) : Option Int :=
  ids.find? fun id => (rules.talents.find? id).isNone

theorem firstUnknown?_cons_of_known {id : Int} {talent : Talent} {ids : List Int}
    (h : rules.talents.find? id = some talent) :
    rules.firstUnknown? (id :: ids) = rules.firstUnknown? ids :=
  List.find?_cons_of_neg (by rw [h]; exact Bool.false_ne_true)

theorem firstUnknown?_cons_of_unknown {id : Int} {ids : List Int}
    (h : rules.talents.find? id = none) : rules.firstUnknown? (id :: ids) = some id :=
  List.find?_cons_of_pos (by rw [h]; rfl)

/-- A selection with an unknown talent fails at the first one. -/
theorem select_of_unknown {ids : List Int} {id : Int} (h : rules.firstUnknown? ids = some id) :
    rules.select ids = .error (.unknown .talent id) := by
  induction ids with
  | nil => cases h
  | cons head rest ih =>
    rw [Ruleset.select, List.mapM_cons]
    cases hfind : rules.talents.find? head with
    | none =>
      rw [firstUnknown?_cons_of_unknown hfind] at h
      cases h
      rfl
    | some talent =>
      rw [firstUnknown?_cons_of_known hfind] at h
      have hrest := ih h
      rw [Ruleset.select] at hrest
      rw [hrest]
      rfl

/-- A selection of known talents does not fail. -/
theorem exists_select_of_known {ids : List Int} (h : rules.firstUnknown? ids = none) :
    ∃ selection, rules.select ids = .ok selection := by
  refine Outcome.exists_mapM_eq_ok_iff.mpr fun id hmem => ?_
  have hknown := List.find?_eq_none.mp h id hmem
  cases hfind : rules.talents.find? id with
  | none => exact absurd (by rw [hfind]; rfl) hknown
  | some talent => exact ⟨talent, rfl⟩

theorem exists_firstUnknown?_iff {ids : List Int} :
    (∃ id, rules.firstUnknown? ids = some id) ↔ ∃ id ∈ ids, rules.talents.find? id = none := by
  rw [← Option.isSome_iff_exists, Ruleset.firstUnknown?, List.find?_isSome]
  simp only [Option.isNone_iff_eq_none]

/-! ## Failing -/

/-- A request for an unknown talent fails. -/
theorem simulateWith_of_unknown {request : Request} {id : Int}
    (h : rules.firstUnknown? request.talents = some id) (source : Source) :
    simulateWith rules request source = (.error (.unknown .talent id), source) := by
  have hresolve : resolve rules request.talents (request.person rules.settings) source =
      .error (.unknown .talent id) := by
    rw [resolve, select_of_unknown h]
    rfl
  rw [simulateWith, live, hresolve]
  rfl

/-- A request for known talents makes a session. -/
theorem exists_simulateWith_of_known {request : Request}
    (h : rules.firstUnknown? request.talents = none) (source : Source) :
    ∃ session source', simulateWith rules request source = (.ok session, source') := by
  obtain ⟨selection, hselection⟩ := exists_select_of_known h
  rw [simulateWith, live, resolve, hselection]
  exact ⟨_, _, rfl⟩

/-- **A request fails exactly if it selects an unknown talent, and says which one comes first.** -/
theorem simulateWith_eq_error_iff {request : Request} {source : Source} {failure : Failure} :
    (simulateWith rules request source).1 = .error failure ↔
      ∃ id, rules.firstUnknown? request.talents = some id ∧ failure = .unknown .talent id := by
  cases hfirst : rules.firstUnknown? request.talents with
  | none =>
    obtain ⟨session, source', hsession⟩ := exists_simulateWith_of_known hfirst source
    rw [hsession]
    constructor
    · intro h
      cases h
    · rintro ⟨id, h, -⟩
      cases h
  | some id =>
    rw [simulateWith_of_unknown hfirst]
    constructor
    · intro h
      exact ⟨id, rfl, (Except.error.inj h).symm⟩
    · rintro ⟨id', h, rfl⟩
      cases h
      rfl

/-! ## Resolving in place -/

/-- A program that works on one person and one source, and may fail in the middle of its work. -/
abbrev InPlace (α : Type) : Type :=
  ExceptT Failure (StateM (Person × Source)) α

namespace InPlace

variable {α β : Type}

/-- Runs a program, and shows what it leaves behind, also if it fails. -/
def start (program : InPlace α) (person : Person) (source : Source) :
    Except Failure α × Person × Source :=
  program.run.run (person, source)

theorem start_bind_of_ok {program : InPlace α} {person person' : Person} {source source' : Source}
    {a : α} (h : program.start person source = (.ok a, person', source')) (next : α → InPlace β) :
    (program >>= next).start person source = (next a).start person' source' := by
  unfold start at h ⊢
  rw [ExceptT.run_bind, StateT.run_bind]
  show (match (program.run.run (person, source)) with | (r, s) => _) = _
  rw [h]
  rfl

theorem start_bind_of_error {program : InPlace α} {person person' : Person}
    {source source' : Source} {failure : Failure}
    (h : program.start person source = (.error failure, person', source')) (next : α → InPlace β) :
    (program >>= next).start person source = (.error failure, person', source') := by
  unfold start at h ⊢
  rw [ExceptT.run_bind, StateT.run_bind]
  show (match (program.run.run (person, source)) with | (r, s) => _) = _
  rw [h]
  rfl

end InPlace

/-- Looks a talent up. -/
def lookUp (rules : Ruleset) (id : Int) : InPlace Talent :=
  match rules.talents.find? id with
  | some talent => pure talent
  | none => throw (.unknown .talent id)

/-- Looks all talents of a selection up, and keeps none. -/
def lookUpEach (rules : Ruleset) : List Int → InPlace Unit
  | [] => pure ()
  | id :: rest => do
    let _ ← lookUp rules id
    lookUpEach rules rest

/-- Looks the talents of a selection up that are not kept yet, and keeps those that go with the ones
kept before them. -/
def keepEach (rules : Ruleset) (kept : List Talent) : List Int → InPlace (List Talent)
  | [] => pure kept
  | id :: rest =>
    if kept.any fun other => other.id == id then keepEach rules kept rest
    else do
      let talent ← lookUp rules id
      if kept.any fun other => other.conflicts talent then keepEach rules kept rest
      else keepEach rules (kept ++ [talent]) rest

/-- Settles survivors in order, each on the person and the source that the one before it leaves. -/
def settleInPlace (rules : Ruleset) :
    List Talent → List Int → Tracker → InPlace (List Settling × Tracker)
  | [], _, tracker => pure ([], tracker)
  | survivor :: rest, taken, tracker => do
    let (person, source) ← get
    let (settling, state) := settle rules survivor ⟨taken, tracker, person, source⟩
    set (state.person, state.source)
    let (settlings, tracker) ← settleInPlace rules rest state.taken state.tracker
    return (settling :: settlings, tracker)

/-- Settles a selection of talents in place. -/
def resolveInPlace (rules : Ruleset) (ids : List Int) : InPlace Resolution := do
  lookUpEach rules ids
  let kept ← keepEach rules [] ids
  let (settlings, tracker) ← settleInPlace rules kept (kept.map Talent.id) .empty
  let (person, _) ← get
  return ⟨settlings, tracker, person⟩

section InPlace

variable (person : Person) (source : Source)

theorem start_lookUp_of_known {id : Int} {talent : Talent}
    (h : rules.talents.find? id = some talent) :
    (lookUp rules id).start person source = (.ok talent, person, source) := by
  rw [lookUp, h]
  rfl

theorem start_lookUp_of_unknown {id : Int} (h : rules.talents.find? id = none) :
    (lookUp rules id).start person source = (.error (.unknown .talent id), person, source) := by
  rw [lookUp, h]
  rfl

theorem start_lookUpEach_of_unknown {ids : List Int} {id : Int}
    (h : rules.firstUnknown? ids = some id) :
    (lookUpEach rules ids).start person source =
      (.error (.unknown .talent id), person, source) := by
  induction ids with
  | nil => cases h
  | cons head rest ih =>
    rw [lookUpEach]
    cases hfind : rules.talents.find? head with
    | none =>
      rw [firstUnknown?_cons_of_unknown hfind] at h
      cases h
      exact InPlace.start_bind_of_error (start_lookUp_of_unknown person source hfind) _
    | some talent =>
      rw [firstUnknown?_cons_of_known hfind] at h
      rw [InPlace.start_bind_of_ok (start_lookUp_of_known person source hfind)]
      exact ih h

theorem start_lookUpEach_of_known {ids : List Int} (h : rules.firstUnknown? ids = none) :
    (lookUpEach rules ids).start person source = (.ok (), person, source) := by
  induction ids with
  | nil => rfl
  | cons head rest ih =>
    rw [lookUpEach]
    cases hfind : rules.talents.find? head with
    | none =>
      rw [firstUnknown?_cons_of_unknown hfind] at h
      cases h
    | some talent =>
      rw [firstUnknown?_cons_of_known hfind] at h
      rw [InPlace.start_bind_of_ok (start_lookUp_of_known person source hfind)]
      exact ih h

theorem any_or {α : Type} (p q : α → Bool) (as : List α) :
    (as.any fun a => p a || q a) = (as.any p || as.any q) := by
  induction as with
  | nil => rfl
  | cons a as ih =>
    rw [List.any_cons, List.any_cons, List.any_cons, ih]
    cases p a <;> cases q a <;> simp

/-- What is kept in place is what survives. -/
theorem start_keepEach (hkeyed : rules.talents.Keyed Talent.id) {ids : List Int}
    {selection : List Talent} (h : rules.select ids = .ok selection) (kept : List Talent) :
    (keepEach rules kept ids).start person source =
      (.ok (kept ++ survivorsFrom kept selection), person, source) := by
  replace h := select_eq_ok_iff.mp h
  induction h generalizing kept with
  | nil =>
    rw [keepEach, survivorsFrom, List.append_nil]
    rfl
  | @cons id talent ids selection hfind _ ih =>
    obtain rfl := hkeyed id talent hfind
    rw [keepEach, survivorsFrom, any_or]
    cases kept.any fun other => other.id == talent.id with
    | true => exact ih kept
    | false =>
      refine (InPlace.start_bind_of_ok (start_lookUp_of_known person source hfind) _).trans ?_
      cases kept.any fun other => other.conflicts talent with
      | true => exact ih kept
      | false =>
        refine (ih (kept ++ [talent])).trans ?_
        rw [List.append_assoc]
        rfl

/-- To settle survivors in place is to settle them. -/
theorem start_settleInPlace (coming : List Talent) (state : SettlingState) :
    (settleInPlace rules coming state.taken state.tracker).start state.person state.source =
      (.ok ((settleEach rules coming state).1, (settleEach rules coming state).2.tracker),
        (settleEach rules coming state).2.person, (settleEach rules coming state).2.source) := by
  induction coming generalizing state with
  | nil => rfl
  | cons survivor rest ih =>
    rw [settleInPlace, settleEach_cons]
    exact InPlace.start_bind_of_ok (ih (settle rules survivor state).2) _

/-- **To resolve a selection in place is to resolve it.**  If it fails, the person and the source
are as they were. -/
theorem start_resolveInPlace (hkeyed : rules.talents.Keyed Talent.id) (ids : List Int) :
    (resolveInPlace rules ids).start person source =
      match resolve rules ids person source with
      | .error failure => (.error failure, person, source)
      | .ok (resolution, source') => (.ok resolution, resolution.person, source') := by
  rw [resolveInPlace, resolve]
  cases hfirst : rules.firstUnknown? ids with
  | some id =>
    rw [select_of_unknown hfirst]
    exact InPlace.start_bind_of_error (start_lookUpEach_of_unknown person source hfirst) _
  | none =>
    obtain ⟨selection, hselection⟩ := exists_select_of_known hfirst
    rw [InPlace.start_bind_of_ok (start_lookUpEach_of_known person source hfirst),
      InPlace.start_bind_of_ok (start_keepEach person source hkeyed hselection []),
      List.nil_append, hselection]
    exact InPlace.start_bind_of_ok (start_settleInPlace (survivors selection)
      ⟨(survivors selection).map Talent.id, .empty, person, source⟩) _

end InPlace

/-! ## Requests one after another -/

/-- Lives the life that a request asks for, the talents of which are settled in place. -/
def liveInPlace (rules : Ruleset) (request : Request) (source : Source) :
    Except Failure Life × Source :=
  match (resolveInPlace rules request.talents).start (request.person rules.settings) source with
  | (.error failure, _, source) => (.error failure, source)
  | (.ok resolution, _, source) =>
    let (life, source) := liveSettled rules request.achieved resolution source
    (.ok life, source)

theorem live_eq_liveInPlace (hkeyed : rules.talents.Keyed Talent.id) (request : Request)
    (source : Source) : live rules request source = liveInPlace rules request source := by
  rw [live, liveInPlace, start_resolveInPlace _ _ hkeyed]
  cases resolve rules request.talents (request.person rules.settings) source with
  | error failure => rfl
  | ok result => rfl

/-- Answers requests one after another, from one source. -/
def simulateEach (rules : Ruleset) :
    List Request → Source → List (Except Failure Session) × Source
  | [], source => ([], source)
  | request :: rest, source =>
    let (answer, source) := simulateWith rules request source
    let (answers, source) := simulateEach rules rest source
    (answer :: answers, source)

/-- The requests that do not fail, with their answers. -/
def answered (rules : Ruleset) (requests : List Request) (source : Source) :
    List (Request × Except Failure Session) :=
  (requests.zip (simulateEach rules requests source).1).filter fun pair => pair.2.isOk

/-- **A request that fails might as well not have been made.** -/
theorem simulateEach_answered (rules : Ruleset) (requests : List Request) (source : Source) :
    simulateEach rules ((answered rules requests source).map Prod.fst) source =
      ((answered rules requests source).map Prod.snd, (simulateEach rules requests source).2) := by
  induction requests generalizing source with
  | nil => rfl
  | cons request rest ih =>
    have hcons : (request :: rest).zip (simulateEach rules (request :: rest) source).1 =
        (request, (simulateWith rules request source).1) ::
          rest.zip (simulateEach rules rest (simulateWith rules request source).2).1 := rfl
    rw [answered, hcons]
    cases hfirst : rules.firstUnknown? request.talents with
    | some id =>
      rw [simulateWith_of_unknown hfirst, List.filter_cons_of_neg Bool.false_ne_true]
      refine (ih source).trans ?_
      rw [simulateEach, simulateWith_of_unknown hfirst]
      rfl
    | none =>
      obtain ⟨session, source', hsession⟩ := exists_simulateWith_of_known hfirst source
      rw [hsession, List.filter_cons_of_pos rfl, List.map_cons, List.map_cons]
      have hrest := ih source'
      rw [answered] at hrest
      rw [simulateEach, hsession, simulateEach, hsession]
      simp only [hrest]

/-- **Requests that fail.**  A request fails exactly if it selects an unknown talent, and the failure
names the first one.  Also if the talents are settled in place, a failure leaves the person and the
source as they were.  Of requests that share a source, those that fail can be deleted: the others are
answered as before, and the source comes out the same. -/
theorem refusals_of_loaded (hloaded : rules.Loaded) :
    (∀ request source, (∃ failure, (simulateWith rules request source).1 = .error failure) ↔
      ∃ id ∈ request.talents, rules.talents.find? id = none) ∧
    (∀ request source failure, (simulateWith rules request source).1 = .error failure ↔
      ∃ id, rules.firstUnknown? request.talents = some id ∧ failure = .unknown .talent id) ∧
    (∀ request source, live rules request source = liveInPlace rules request source) ∧
    (∀ ids person source failure person' source',
      (resolveInPlace rules ids).start person source = (.error failure, person', source') →
        person' = person ∧ source' = source) ∧
    ∀ requests source,
      simulateEach rules ((answered rules requests source).map Prod.fst) source =
        ((answered rules requests source).map Prod.snd,
          (simulateEach rules requests source).2) := by
  have hkeyed := hloaded.coherent.talents
  refine ⟨fun request source => ?_, fun _ _ _ => simulateWith_eq_error_iff,
    live_eq_liveInPlace hkeyed, fun ids person source failure person' source' h => ?_,
    simulateEach_answered rules⟩
  · rw [← exists_firstUnknown?_iff]
    constructor
    · rintro ⟨failure, h⟩
      obtain ⟨id, hfirst, -⟩ := simulateWith_eq_error_iff.mp h
      exact ⟨id, hfirst⟩
    · rintro ⟨id, hfirst⟩
      exact ⟨_, simulateWith_eq_error_iff.mpr ⟨id, hfirst, rfl⟩⟩
  · rw [start_resolveInPlace _ _ hkeyed] at h
    split at h
    · cases h
      exact ⟨rfl, rfl⟩
    · cases h

/-! ## A request between two others -/

/-- A draft of rules with one talent, which adds one to a core stat that is drawn. -/
def luckyDraft : Draft where
  talents := [("1", { effect := some { Effect.none with random := 1 } })]
  settings := some { Settings.standard with
    terminalAge := 0, terminalAge_le := Range.zero_le_greatest }

/-- The rules of the draft. -/
def luckyRules : Ruleset where
  talents := .ofList [(1, { Talent.ofName 1 "" with
    effect := some { Effect.none with random := 1 } })]
  events := .empty
  ages := .empty
  achievements := .empty
  rubrics := .empty
  settings := { Settings.standard with terminalAge := 0, terminalAge_le := Range.zero_le_greatest }

/-- Two requests draw a word each.  One between them that asks for unknown talents after a known one
draws none, and without it the answers are the same. -/
theorem refusals_of_loaded_lucky : luckyDraft.build = .ok luckyRules ∧
    ∃ session session',
      simulateEach luckyRules
          [.withTalents .empty [1], .withTalents .empty [1, 8, 7], .withTalents .empty [1, 1]]
          ⟨fun _ => 0, 0⟩ =
        ([.ok session, .error (.unknown .talent 8), .ok session'], ⟨fun _ => 0, 2⟩) ∧
      simulateEach luckyRules [.withTalents .empty [1], .withTalents .empty [1, 1]]
          ⟨fun _ => 0, 0⟩ =
        ([.ok session, .ok session'], ⟨fun _ => 0, 2⟩) := by
  have hbuild : luckyDraft.build = .ok luckyRules := rfl
  have heach : ∃ session session', simulateEach luckyRules
      [.withTalents .empty [1], .withTalents .empty [1, 8, 7], .withTalents .empty [1, 1]]
      ⟨fun _ => 0, 0⟩ =
        ([.ok session, .error (.unknown .talent 8), .ok session'], ⟨fun _ => 0, 2⟩) :=
    ⟨_, _, rfl⟩
  obtain ⟨session, session', heach⟩ := heach
  obtain ⟨-, -, -, -, hdelete⟩ := refusals_of_loaded (.build hbuild)
  have hrest := hdelete
    [.withTalents .empty [1], .withTalents .empty [1, 8, 7], .withTalents .empty [1, 1]]
    ⟨fun _ => 0, 0⟩
  rw [answered, heach] at hrest
  exact ⟨hbuild, session, session', heach, hrest⟩

end LifeCourse
