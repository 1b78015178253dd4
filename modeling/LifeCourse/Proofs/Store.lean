import LifeCourse.Store
import Mathlib.Data.List.Basic
import Mathlib.Logic.Function.Basic

/-!
# One store and many clients

A program has one store, and any number of clients call it: to bring rules, to ask whether there are
any, and to have lives simulated.  A call takes effect at once, and nobody knows whose is the next.

## Clients

`Store.Service` is a store in use, with what each client is still going to call.  It serves a client
by letting its next call take effect (`Service.serve`), and a schedule says who is served in turn.
Each interleaving of the clients' calls is that of some schedule, so what is proved of every
schedule holds of every interleaving.  The turns of a service are the calls that took effect, each
with its answer and with the store before and after it.

## Where the argument turns

A step leaves the ruleset that is there, or else the one that the call brings (`rules_step`).  So
after any calls the store has the first ruleset that one of them brought (`rules_run`), and an
answer depends on the calls before it through this ruleset alone.
-/

namespace LifeCourse
namespace Store

/-! ## Calls -/

/-- The ruleset that a call brings, if it brings one that loads. -/
def Call.brings? : Call → Option Ruleset
  | init rules => some rules
  | initJson text => (Ruleset.ofJson text).toOption
  | isInitialized => none
  | simulate _ _ => none

/-- The first ruleset that some calls bring. -/
def firstBrought? (calls : List Call) : Option Ruleset :=
  calls.findSome? Call.brings?

/-- Whether the answer says that rules have been installed by the call. -/
def Answer.succeeds : Answer → Bool
  | installed (.ok ()) => true
  | _ => false

theorem isInitialized_eq (store : Store) : store.isInitialized = store.rules.isSome :=
  rfl

/-- **A step keeps the ruleset that is there**, or else takes the one that the call brings. -/
theorem rules_step (store : Store) (call : Call) :
    (store.step call).2.rules = store.rules.or call.brings? := by
  obtain ⟨rules⟩ := store
  cases call with
  | init brought => cases rules <;> rfl
  | initJson text =>
    rw [step, initJson, Call.brings?]
    cases Ruleset.ofJson text <;> cases rules <;> rfl
  | isInitialized => exact (Option.or_none ..).symm
  | simulate request atHand => exact (Option.or_none ..).symm

/-- An installation succeeds if it brings rules and there are none. -/
theorem succeeds_step (store : Store) (call : Call) :
    (store.step call).1.succeeds = (!store.isInitialized && call.brings?.isSome) := by
  obtain ⟨rules⟩ := store
  cases call with
  | init brought => cases rules <;> rfl
  | initJson text =>
    rw [step, initJson, Call.brings?]
    cases Ruleset.ofJson text <;> cases rules <;> rfl
  | isInitialized => exact (Bool.and_false _).symm
  | simulate request atHand => exact (Bool.and_false _).symm

/-- Only an installation that succeeds changes the store. -/
theorem step_of_not_succeeds {store : Store} {call : Call}
    (h : (store.step call).1.succeeds = false) : (store.step call).2 = store := by
  rw [succeeds_step, isInitialized_eq] at h
  have hrules : (store.step call).2.rules = store.rules := by
    rw [rules_step]
    cases hstore : store.rules with
    | some rules => rfl
    | none =>
      rw [hstore] at h
      exact Option.isNone_iff_eq_none.mp (Option.isSome_eq_false_iff.mp h)
  exact congrArg Store.mk hrules

/-- Rules that are brought to others are refused. -/
theorem answer_of_brings {store : Store} {call : Call} {installed brought : Ruleset}
    (hrules : store.rules = some installed) (hbrings : call.brings? = some brought) :
    (store.step call).1 = .installed (.error .alreadyInitialized) := by
  obtain ⟨rules⟩ := store
  obtain rfl : rules = some installed := hrules
  cases call with
  | init rules => rfl
  | initJson text =>
    rw [Call.brings?] at hbrings
    rw [step, initJson]
    cases hload : Ruleset.ofJson text with
    | error failure =>
      rw [hload] at hbrings
      cases hbrings
    | ok rules => rfl
  | isInitialized => cases hbrings
  | simulate request atHand => cases hbrings

/-- **A store has the first ruleset that was brought.** -/
theorem rules_run (store : Store) (calls : List Call) :
    (store.run calls).2.rules = store.rules.or (firstBrought? calls) := by
  induction calls generalizing store with
  | nil => exact (Option.or_none ..).symm
  | cons call calls ih =>
    have hrun : (store.run (call :: calls)).2 = ((store.step call).2.run calls).2 := rfl
    rw [hrun, ih, rules_step, Option.or_assoc, firstBrought?, firstBrought?, List.findSome?_cons]
    cases call.brings? <;> rfl

theorem rules_run_empty (calls : List Call) :
    (empty.run calls).2.rules = firstBrought? calls :=
  rules_run empty calls

/-- One more call finds the store as the others left it. -/
theorem run_concat (store : Store) (calls : List Call) (call : Call) :
    (store.run (calls ++ [call])).2 = ((store.run calls).2.step call).2 := by
  rw [run_append]
  rfl

theorem firstBrought?_eq_none_iff {calls : List Call} :
    firstBrought? calls = none ↔ ∀ call ∈ calls, call.brings? = none :=
  List.findSome?_eq_none_iff

/-! ## Clients -/

/-- A call that took effect. -/
structure Turn (ι : Type) where
  client : ι
  call : Call
  before : Store
  answer : Answer
  after : Store

/-- A store in use: what each client is still going to call, and the calls that took effect. -/
structure Service (ι : Type) where
  store : Store
  pending : ι → List Call
  turns : List (Turn ι)

namespace Service

variable {ι : Type}

/-- A fresh store, which nobody has called. -/
def fresh (programs : ι → List Call) : Service ι :=
  ⟨empty, programs, []⟩

variable [DecidableEq ι]

/-- The next call of a client takes effect, if it has any left. -/
def serve (service : Service ι) (client : ι) : Service ι :=
  match service.pending client with
  | [] => service
  | call :: rest =>
    let (answer, after) := service.store.step call
    { store := after
      pending := Function.update service.pending client rest
      turns := service.turns ++ [⟨client, call, service.store, answer, after⟩] }

/-- Clients are served one after another. -/
def serveEach (service : Service ι) (schedule : List ι) : Service ι :=
  schedule.foldl serve service

/-- The calls of a client that took effect. -/
def servedTo (service : Service ι) (client : ι) : List Call :=
  (service.turns.filter fun turn => turn.client = client).map Turn.call

/-- The turns are those of the clients' programs, each on the store that the ones before it left. -/
structure Sound (programs : ι → List Call) (service : Service ι) : Prop where
  calls : ∀ client, service.servedTo client ++ service.pending client = programs client
  store : service.store = (empty.run (service.turns.map Turn.call)).2
  turns : ∀ earlier turn later, service.turns = earlier ++ turn :: later →
    turn.before = (empty.run (earlier.map Turn.call)).2 ∧
      (turn.answer, turn.after) = turn.before.step turn.call

theorem sound_fresh (programs : ι → List Call) : (fresh programs).Sound programs where
  calls _ := rfl
  store := rfl
  turns earlier turn later h := by
    have hlength := congrArg List.length h
    rw [List.length_append, List.length_cons] at hlength
    exact absurd hlength (Nat.succ_ne_zero _).symm

/-- **What serving a client keeps.** -/
theorem Sound.serve {programs : ι → List Call} {service : Service ι} (h : service.Sound programs)
    (client : ι) : (service.serve client).Sound programs := by
  unfold Service.serve
  split
  · exact h
  · rename_i call rest hpending
    refine ⟨fun other => ?_, ?_, fun earlier turn later hturns => ?_⟩
    · have hcalls := h.calls other
      simp only [servedTo, List.filter_append, List.map_append]
      by_cases hother : other = client
      · subst hother
        rw [hpending] at hcalls
        simp only [Function.update_self, List.filter_singleton, decide_true, cond_true,
          List.map_singleton, List.append_assoc, List.singleton_append]
        exact hcalls
      · have hclient : ¬client = other := fun heq => hother heq.symm
        simp only [Function.update_of_ne hother, List.filter_singleton, hclient, decide_false,
          cond_false, List.map_nil, List.append_nil]
        exact hcalls
    · simp only [List.map_append, List.map_singleton]
      rw [run_concat, ← h.store]
    · -- The turn is the new one if nothing comes after it, and else one of the others.
      rcases List.eq_nil_or_concat later with rfl | ⟨later, last, rfl⟩
      · obtain ⟨rfl, hlast⟩ := List.append_inj' hturns rfl
        obtain rfl := (List.singleton_inj.mp hlast).symm
        exact ⟨h.store, rfl⟩
      · rw [List.concat_eq_append, ← List.cons_append, ← List.append_assoc] at hturns
        exact h.turns earlier turn later (List.append_inj' hturns rfl).1

/-- **What every schedule keeps.** -/
theorem sound_serveEach (programs : ι → List Call) (schedule : List ι) :
    ((fresh programs).serveEach schedule).Sound programs := by
  unfold serveEach
  generalize hstart : fresh programs = service
  have hsound : service.Sound programs := hstart ▸ sound_fresh programs
  clear hstart
  induction schedule generalizing service with
  | nil => exact hsound
  | cons client schedule ih => exact ih _ (hsound.serve client)

end Service

/-! ## What a client is told -/

/-- What the turns before it say of a turn. -/
structure Turn.Follows {ι : Type} (earlier : List (Turn ι)) (turn : Turn ι) : Prop where
  /-- The call is a step of the store that the calls before it left. -/
  step : turn.before = (empty.run (earlier.map Turn.call)).2 ∧
    (turn.answer, turn.after) = turn.before.step turn.call
  /-- The first call that brings rules succeeds, and no other. -/
  succeeds_iff : turn.answer.succeeds = true ↔
    (∃ rules, turn.call.brings? = some rules) ∧ ∀ other ∈ earlier, other.call.brings? = none
  /-- The rules that it brings are those of the store from then on. -/
  installs : turn.answer.succeeds = true → turn.after.rules = turn.call.brings?
  /-- Other rules that load are refused because there are some. -/
  refused : ∀ rules, turn.call.brings? = some rules →
    (∃ other ∈ earlier, other.answer.succeeds = true) →
    turn.answer = .installed (.error .alreadyInitialized)
  /-- A text that does not load is refused for its own reason, early or late. -/
  unloaded : ∀ text failure, turn.call = .initJson text → Ruleset.ofJson text = .error failure →
    turn.answer = .installed (.error failure)
  /-- No call but the one that succeeds changes the store. -/
  unchanged : turn.answer.succeeds = false → turn.after = turn.before
  /-- The store says whether a call before this one has succeeded. -/
  asked : turn.call = .isInitialized →
    turn.answer = .truth (earlier.any fun other => other.answer.succeeds)
  /-- As long as none has, no life is simulated. -/
  unready : ∀ request atHand, turn.call = .simulate request atHand →
    (∀ other ∈ earlier, other.answer.succeeds = false) →
    turn.answer = .session (.error .notInitialized)
  /-- Then lives are simulated under the rules that were installed. -/
  ready : ∀ request atHand, turn.call = .simulate request atHand →
    ∀ other ∈ earlier, other.answer.succeeds = true →
    ∃ rules, other.call.brings? = some rules ∧
      turn.answer = .session (LifeCourse.simulate rules request atHand)

namespace Service

variable {ι : Type} [DecidableEq ι] {programs : ι → List Call} {service : Service ι}

/-- The rules that a turn finds. -/
theorem Sound.rules_before (h : service.Sound programs) {earlier later : List (Turn ι)}
    {turn : Turn ι} (hturns : service.turns = earlier ++ turn :: later) :
    turn.before.rules = firstBrought? (earlier.map Turn.call) := by
  rw [(h.turns earlier turn later hturns).1, rules_run_empty]

theorem Sound.answer_eq (h : service.Sound programs) {earlier later : List (Turn ι)}
    {turn : Turn ι} (hturns : service.turns = earlier ++ turn :: later) :
    turn.answer = (turn.before.step turn.call).1 ∧ turn.after = (turn.before.step turn.call).2 :=
  Prod.mk.inj (h.turns earlier turn later hturns).2

theorem Sound.succeeds_iff (h : service.Sound programs) {earlier later : List (Turn ι)}
    {turn : Turn ι} (hturns : service.turns = earlier ++ turn :: later) :
    turn.answer.succeeds = true ↔
      (∃ rules, turn.call.brings? = some rules) ∧
        ∀ other ∈ earlier, other.call.brings? = none := by
  rw [(h.answer_eq hturns).1, succeeds_step, isInitialized_eq, h.rules_before hturns,
    Bool.and_eq_true, Bool.not_eq_true', Option.isSome_eq_false_iff, Option.isNone_iff_eq_none,
    firstBrought?_eq_none_iff, List.forall_mem_map, Option.isSome_iff_exists, and_comm]

/-- **A turn finds rules exactly if a turn before it has installed them.** -/
theorem Sound.found_iff (h : service.Sound programs) {earlier later : List (Turn ι)}
    {turn : Turn ι} (hturns : service.turns = earlier ++ turn :: later) {rules : Ruleset} :
    turn.before.rules = some rules ↔
      ∃ other ∈ earlier, other.answer.succeeds = true ∧ other.call.brings? = some rules := by
  rw [h.rules_before hturns, firstBrought?, List.findSome?_map, List.findSome?_eq_some_iff]
  constructor
  · rintro ⟨front, other, back, rfl, hbrings, hfront⟩
    have hother : service.turns = front ++ other :: (back ++ turn :: later) := by
      rw [hturns, List.append_assoc, List.cons_append]
    exact ⟨other, by simp, (h.succeeds_iff hother).mpr ⟨⟨rules, hbrings⟩, hfront⟩, hbrings⟩
  · rintro ⟨other, hmem, hsucceeds, hbrings⟩
    obtain ⟨front, back, rfl⟩ := List.append_of_mem hmem
    have hother : service.turns = front ++ other :: (back ++ turn :: later) := by
      rw [hturns, List.append_assoc, List.cons_append]
    exact ⟨front, other, back, rfl, hbrings, ((h.succeeds_iff hother).mp hsucceeds).2⟩

/-- What a turn that succeeded brought is found by every later one. -/
theorem Sound.exists_found (h : service.Sound programs) {earlier later : List (Turn ι)}
    {turn : Turn ι} (hturns : service.turns = earlier ++ turn :: later) {other : Turn ι}
    (hmem : other ∈ earlier) (hsucceeds : other.answer.succeeds = true) :
    ∃ rules, other.call.brings? = some rules ∧ turn.before.rules = some rules := by
  obtain ⟨front, back, rfl⟩ := List.append_of_mem hmem
  have hother : service.turns = front ++ other :: (back ++ turn :: later) := by
    rw [hturns, List.append_assoc, List.cons_append]
  obtain ⟨⟨rules, hbrings⟩, -⟩ := (h.succeeds_iff hother).mp hsucceeds
  exact ⟨rules, hbrings, (h.found_iff hturns).mpr ⟨other, hmem, hsucceeds, hbrings⟩⟩

theorem Sound.isInitialized_before (h : service.Sound programs) {earlier later : List (Turn ι)}
    {turn : Turn ι} (hturns : service.turns = earlier ++ turn :: later) :
    turn.before.isInitialized = earlier.any fun other => other.answer.succeeds := by
  rw [Bool.eq_iff_iff, isInitialized_eq, Option.isSome_iff_exists, List.any_eq_true]
  constructor
  · rintro ⟨rules, hrules⟩
    obtain ⟨other, hmem, hsucceeds, -⟩ := (h.found_iff hturns).mp hrules
    exact ⟨other, hmem, hsucceeds⟩
  · rintro ⟨other, hmem, hsucceeds⟩
    obtain ⟨rules, -, hrules⟩ := h.exists_found hturns hmem hsucceeds
    exact ⟨rules, hrules⟩

/-- **Every turn is what the turns before it say.** -/
theorem Sound.follows (h : service.Sound programs) {earlier later : List (Turn ι)}
    {turn : Turn ι} (hturns : service.turns = earlier ++ turn :: later) :
    turn.Follows earlier := by
  obtain ⟨hanswer, hafter⟩ := h.answer_eq hturns
  refine ⟨h.turns earlier turn later hturns, h.succeeds_iff hturns, ?_, ?_, ?_, ?_, ?_, ?_, ?_⟩
  · intro hsucceeds
    rw [hanswer, succeeds_step, Bool.and_eq_true, Bool.not_eq_true', isInitialized_eq,
      Option.isSome_eq_false_iff, Option.isNone_iff_eq_none] at hsucceeds
    rw [hafter, rules_step, hsucceeds.1, Option.none_or]
  · rintro rules hbrings ⟨other, hmem, hsucceeds⟩
    obtain ⟨installed, -, hfound⟩ := h.exists_found hturns hmem hsucceeds
    rw [hanswer, answer_of_brings hfound hbrings]
  · intro text failure hcall hload
    rw [hanswer, hcall, step, initJson, hload]
    rfl
  · intro hsucceeds
    rw [hanswer] at hsucceeds
    rw [hafter, step_of_not_succeeds hsucceeds]
  · intro hcall
    rw [hanswer, hcall, ← h.isInitialized_before hturns]
    rfl
  · intro request atHand hcall hnone
    have hrules : turn.before.rules = none := by
      have hany : (earlier.any fun other => other.answer.succeeds) = false :=
        List.any_eq_false.mpr fun other hmem => Bool.eq_false_iff.mp (hnone other hmem)
      rw [← h.isInitialized_before hturns, isInitialized_eq] at hany
      exact Option.isNone_iff_eq_none.mp (Option.isSome_eq_false_iff.mp hany)
    rw [hanswer, hcall, step, simulate, hrules]
  · intro request atHand hcall other hmem hsucceeds
    obtain ⟨rules, hbrings, hfound⟩ := h.exists_found hturns hmem hsucceeds
    rw [hanswer, hcall, step, simulate, hfound]
    exact ⟨rules, hbrings, rfl⟩

end Service

/-! ## One installation -/

/-- If a test holds of exactly the first item that another test holds of, it selects that item. -/
theorem filter_eq_toList_find? {α : Type} {p q : α → Bool} {items : List α}
    (h : ∀ earlier item later, items = earlier ++ item :: later →
      (p item = true ↔ q item = true ∧ ∀ other ∈ earlier, q other = false)) :
    items.filter p = (items.find? q).toList := by
  have hq : ∀ item ∈ items, p item = true → q item = true := by
    intro item hmem hp
    obtain ⟨earlier, later, rfl⟩ := List.append_of_mem hmem
    exact ((h earlier item later rfl).mp hp).1
  cases hfind : items.find? q with
  | none =>
    have hnone := List.find?_eq_none.mp hfind
    exact List.filter_eq_nil_iff.mpr fun item hmem hp => hnone item hmem (hq item hmem hp)
  | some item =>
    obtain ⟨hitem, earlier, later, rfl, hearlier⟩ := List.find?_eq_some_iff_append.mp hfind
    have hp : p item = true :=
      (h earlier item later rfl).mpr ⟨hitem, fun other hmem => by simpa using hearlier other hmem⟩
    have hbefore : earlier.filter p = [] := by
      refine List.filter_eq_nil_iff.mpr fun other hmem hother => ?_
      have hnot := hearlier other hmem
      rw [hq other (List.mem_append_left _ hmem) hother] at hnot
      cases hnot
    have hafter : later.filter p = [] := by
      refine List.filter_eq_nil_iff.mpr fun other hmem hother => ?_
      obtain ⟨front, back, rfl⟩ := List.append_of_mem hmem
      have hsplit : earlier ++ item :: (front ++ other :: back) =
          (earlier ++ item :: front) ++ other :: back := by simp
      have hnot := ((h _ other back hsplit).mp hother).2 item (by simp)
      rw [hitem] at hnot
      cases hnot
    rw [List.filter_append, List.filter_cons_of_pos hp, hbefore, hafter]
    rfl

/-- **Rules are installed once.**  However many clients a fresh store has, whatever they call, and
in whatever order they are served: each is served its own calls in their order; the one call that
succeeds, if any does, is the first that brings rules which load; and every call is answered as the
calls before it say. -/
theorem installed_once {ι : Type} [DecidableEq ι] (programs : ι → List Call) (schedule : List ι) :
    let service := (Service.fresh programs).serveEach schedule
    (∀ client, service.servedTo client ++ service.pending client = programs client) ∧
    service.turns.filter (fun turn => turn.answer.succeeds) =
      (service.turns.find? fun turn => turn.call.brings?.isSome).toList ∧
    service.store.rules = firstBrought? (service.turns.map Turn.call) ∧
    ∀ earlier turn later, service.turns = earlier ++ turn :: later → turn.Follows earlier := by
  intro service
  have hsound : service.Sound programs := Service.sound_serveEach programs schedule
  refine ⟨hsound.calls, ?_, ?_, fun earlier turn later hturns => hsound.follows hturns⟩
  · refine filter_eq_toList_find? fun earlier turn later hturns => ?_
    rw [hsound.succeeds_iff hturns, Option.isSome_iff_exists]
    simp only [Option.isSome_eq_false_iff, Option.isNone_iff_eq_none]
  · rw [hsound.store, rules_run_empty]

/-! ## Two clients -/

/-- Rules without entities, by which a life ends in its first year. -/
def shortRules : Ruleset :=
  { Ruleset.standard with
    settings := { Settings.standard with
      terminalAge := 0, terminalAge_le := Range.zero_le_greatest } }

/-- What two clients call: one brings rules as a text that does not load and then as one that does,
the other one brings rules as they are. -/
def racingPrograms : Bool → List Call
  | true => [.initJson "\x7b", .initJson "\x7b\x7d", .simulate .empty (.seeded 1)]
  | false => [.simulate .empty (.seeded 0), .init shortRules, .isInitialized]

/-- The other one comes first, and the life that is simulated at the end is by its rules. -/
theorem installed_once_racing :
    ∃ earlier turn later,
      ((Service.fresh racingPrograms).serveEach [false, true, false, true, false, true]).turns =
        earlier ++ turn :: later ∧
      earlier.map (fun other => other.answer.succeeds) = [false, false, true, false, false] ∧
      turn.call = .simulate .empty (.seeded 1) ∧
      turn.answer = .session (LifeCourse.simulate shortRules .empty (.seeded 1)) := by
  have hturns : ∃ earlier turn later,
      ((Service.fresh racingPrograms).serveEach [false, true, false, true, false, true]).turns =
        earlier ++ turn :: later ∧
      earlier.map (fun other => other.answer.succeeds) = [false, false, true, false, false] ∧
      turn.call = .simulate .empty (.seeded 1) ∧
      ∃ other ∈ earlier, other.answer.succeeds = true ∧ other.call = .init shortRules :=
    ⟨[_, _, _, _, _], _, [], rfl, rfl, rfl, _, .tail _ (.tail _ (.head _)), rfl, rfl⟩
  obtain ⟨earlier, turn, later, hturns, hsucceeds, hcall, other, hmem, hother, hinit⟩ := hturns
  obtain ⟨-, -, -, hfollows⟩ :=
    installed_once racingPrograms [false, true, false, true, false, true]
  obtain ⟨rules, hrules, hanswer⟩ :=
    (hfollows earlier turn later hturns).ready .empty (.seeded 1) hcall other hmem hother
  rw [hinit] at hrules
  obtain rfl : shortRules = rules := Option.some.inj hrules
  exact ⟨earlier, turn, later, hturns, hsucceeds, hcall, hanswer⟩

end Store
end LifeCourse
