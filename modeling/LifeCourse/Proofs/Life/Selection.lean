import LifeCourse.Life.Session
import LifeCourse.Proofs.Life.Settling
import Mathlib.Data.List.Induction
import Mathlib.Data.List.Sort

/-!
# The survivors of a selection

Of a selection of talents some survive.  `survivorsFrom` goes through the selection once and carries
along what it has kept.  What comes out has a law that mentions no such state, and mentions the
survivors themselves instead (`Greedy`): a place of the selection is among theirs exactly if its
talent stands there for the first time and does not conflict, in either direction, with a talent at
an earlier one of their places.  There is one list of places with this law and no other one
(`Greedy.unique`), since what it asks of a place depends on the places before it only.

The law does not speak of talents that were dropped.  One of them keeps no other talent out, and a
second occurrence of it is dropped as well although nobody with its id has survived: what it
conflicts with is still there (`exists_blocks_of_mem`).

## Once is enough

Survivors do not block each other, so all of them survive a second time (`survivors_survivors`).  A
selection therefore settles in the same way as the list of its survivors, and the lives that are
lived with the two are the same (`resolve_greedy`).
-/

namespace LifeCourse

variable {rules : Ruleset}

/-! ## The law -/

section

variable {selection : List Talent} {places places' : List Nat} {k : Nat} {talent : Talent}

/-- The talent stands in a place for the first time, and it goes with those at the earlier ones of
some places. -/
structure Survives (selection : List Talent) (places : List Nat) (k : Nat) (talent : Talent) :
    Prop where
  found : selection[k]? = some talent
  first : ∀ other ∈ selection.take k, other.id ≠ talent.id
  goes : ∀ j ∈ places, j < k → ∀ survivor, selection[j]? = some survivor →
    survivor.excludes talent.id = false ∧ talent.excludes survivor.id = false

/-- The places are those of the greedy choice: at each of them, and nowhere else, a talent survives
beside the earlier ones. -/
structure Greedy (selection : List Talent) (places : List Nat) : Prop where
  ascending : places.Pairwise (· < ·)
  mem_iff : ∀ k, k ∈ places ↔ ∃ talent, Survives selection places k talent

/-- Only the places before count. -/
theorem Survives.of_agree (h : Survives selection places k talent)
    (hagree : ∀ j < k, j ∈ places' → j ∈ places) : Survives selection places' k talent :=
  ⟨h.found, h.first, fun j hj hlt => h.goes j (hagree j hlt hj) hlt⟩

theorem Survives.lt_length (h : Survives selection places k talent) : k < selection.length :=
  (List.getElem?_eq_some_iff.mp h.found).1

theorem Greedy.lt_length (h : Greedy selection places) (hk : k ∈ places) :
    k < selection.length := by
  obtain ⟨talent, hsurvives⟩ := (h.mem_iff k).mp hk
  exact hsurvives.lt_length

/-- **There is one greedy choice.** -/
theorem Greedy.unique (h : Greedy selection places) (h' : Greedy selection places') :
    places = places' := by
  have hagree (k : Nat) : k ∈ places ↔ k ∈ places' := by
    -- Two lists that agree below a place ask the same of it.
    induction k using Nat.strongRecOn with
    | ind k ih =>
      rw [h.mem_iff, h'.mem_iff]
      exact exists_congr fun talent =>
        ⟨fun hsurvives => hsurvives.of_agree fun j hlt => (ih j hlt).mpr,
          fun hsurvives => hsurvives.of_agree fun j hlt => (ih j hlt).mp⟩
  exact h.ascending.eq_of_mem_iff h'.ascending hagree

theorem greedy_nil : Greedy [] [] where
  ascending := .nil
  mem_iff _ := iff_of_false List.not_mem_nil fun ⟨_, hsurvives⟩ => by cases hsurvives.found

/-- What comes later does not count. -/
theorem survives_append_iff (hk : k < selection.length) (rest : List Talent) :
    Survives (selection ++ rest) places k talent ↔ Survives selection places k talent := by
  have hleft {j : Nat} (hj : j ≤ k) : (selection ++ rest)[j]? = selection[j]? :=
    List.getElem?_append_left (Nat.lt_of_le_of_lt hj hk)
  have htake : (selection ++ rest).take k = selection.take k :=
    List.take_append_of_le_length (Nat.le_of_lt hk)
  constructor
  · rintro ⟨hfound, hfirst, hgoes⟩
    rw [hleft (Nat.le_refl k)] at hfound
    rw [htake] at hfirst
    refine ⟨hfound, hfirst, fun j hj hlt survivor hsurvivor => hgoes j hj hlt survivor ?_⟩
    rwa [hleft (Nat.le_of_lt hlt)]
  · rintro ⟨hfound, hfirst, hgoes⟩
    refine ⟨by rwa [hleft (Nat.le_refl k)], by rwa [htake], fun j hj hlt survivor hsurvivor => ?_⟩
    rw [hleft (Nat.le_of_lt hlt)] at hsurvivor
    exact hgoes j hj hlt survivor hsurvivor

/-- What is asked of a talent that comes last. -/
theorem survives_length_iff (hplaces : ∀ j ∈ places, j < selection.length) :
    (∃ last, Survives (selection ++ [talent]) places selection.length last) ↔
      (∀ other ∈ selection, other.id ≠ talent.id) ∧
        ∀ j ∈ places, ∀ survivor, selection[j]? = some survivor →
          survivor.excludes talent.id = false ∧ talent.excludes survivor.id = false := by
  have hlast : (selection ++ [talent])[selection.length]? = some talent :=
    List.getElem?_concat_length
  have htake : (selection ++ [talent]).take selection.length = selection := List.take_left
  constructor
  · rintro ⟨last, hfound, hfirst, hgoes⟩
    obtain rfl := Option.some.inj (hlast.symm.trans hfound)
    rw [htake] at hfirst
    refine ⟨hfirst, fun j hj survivor hsurvivor => hgoes j hj (hplaces j hj) survivor ?_⟩
    rwa [List.getElem?_append_left (hplaces j hj)]
  · rintro ⟨hfirst, hgoes⟩
    refine ⟨talent, hlast, by rwa [htake], fun j hj hlt survivor hsurvivor => ?_⟩
    rw [List.getElem?_append_left hlt] at hsurvivor
    exact hgoes j hj survivor hsurvivor

/-- One more talent is either dropped or takes its place at the end. -/
theorem Greedy.concat (h : Greedy selection places) {last : List Nat}
    (honly : ∀ k ∈ last, k = selection.length) (hascending : last.Pairwise (· < ·))
    (hlast : selection.length ∈ last ↔
      ∃ survivor, Survives (selection ++ [talent]) places selection.length survivor) :
    Greedy (selection ++ [talent]) (places ++ last) := by
  have hbefore : ∀ k ≤ selection.length, ∀ j < k, j ∈ places ++ last ↔ j ∈ places := by
    intro k hk j hlt
    rw [List.mem_append, or_iff_left]
    intro hj
    have := honly j hj
    omega
  have hagree {k : Nat} (hk : k ≤ selection.length) :
      (∃ survivor, Survives (selection ++ [talent]) (places ++ last) k survivor) ↔
        ∃ survivor, Survives (selection ++ [talent]) places k survivor :=
    exists_congr fun survivor =>
      ⟨fun hsurvives => hsurvives.of_agree fun j hlt => (hbefore k hk j hlt).mpr,
        fun hsurvives => hsurvives.of_agree fun j hlt => (hbefore k hk j hlt).mp⟩
  refine ⟨List.pairwise_append.mpr ⟨h.ascending, hascending, fun j hj k hk => ?_⟩, fun k => ?_⟩
  · rw [honly k hk]
    exact h.lt_length hj
  · rcases Nat.lt_trichotomy k selection.length with hlt | rfl | hgt
    · rw [hagree (Nat.le_of_lt hlt), hbefore _ (Nat.le_refl _) k hlt, h.mem_iff]
      simp only [survives_append_iff hlt]
    · rw [hagree (Nat.le_refl _), ← hlast, List.mem_append, or_iff_right]
      exact fun hk => Nat.lt_irrefl _ (h.lt_length hk)
    · refine iff_of_false (fun hk => ?_) fun ⟨survivor, hsurvives⟩ => ?_
      · rcases List.mem_append.mp hk with hk | hk
        · have := h.lt_length hk
          omega
        · have := honly k hk
          omega
      · have := hsurvives.lt_length
        rw [List.length_append, List.length_singleton] at this
        omega

end

/-! ## The choice that is made -/

section

variable {kept selection : List Talent} {talent : Talent}

theorem survivorsFrom_concat (kept selection : List Talent) (talent : Talent) :
    survivorsFrom kept (selection ++ [talent]) = survivorsFrom kept selection ++
      if (kept ++ survivorsFrom kept selection).any (·.blocks talent) then [] else [talent] := by
  induction selection generalizing kept with
  | nil =>
    simp only [List.nil_append, survivorsFrom, List.append_nil]
    rfl
  | cons head rest ih =>
    rw [List.cons_append, survivorsFrom, survivorsFrom]
    split
    · exact ih kept
    · rw [ih (kept ++ [head]), List.append_assoc, List.singleton_append, List.cons_append]

/-- Whether the last talent survives depends on the survivors before it. -/
theorem survivors_concat (selection : List Talent) (talent : Talent) :
    survivors (selection ++ [talent]) = survivors selection ++
      if (survivors selection).any (·.blocks talent) then [] else [talent] :=
  survivorsFrom_concat [] selection talent

/-- Whoever was selected has survived or is kept out by one who has. -/
theorem exists_blocks_of_mem (h : talent ∈ selection) :
    ∃ survivor ∈ survivors selection, survivor.blocks talent = true := by
  have hkept (kept : List Talent) :
      ∃ survivor ∈ kept ++ survivorsFrom kept selection, survivor.blocks talent = true := by
    induction selection generalizing kept with
    | nil => exact absurd h List.not_mem_nil
    | cons head rest ih =>
      rw [survivorsFrom]
      split
      · rename_i hblocked
        rcases List.mem_cons.mp h with rfl | h
        · obtain ⟨survivor, hmem, hblocks⟩ := List.any_eq_true.mp hblocked
          exact ⟨survivor, List.mem_append_left _ hmem, hblocks⟩
        · exact ih h kept
      · rcases List.mem_cons.mp h with rfl | h
        · refine ⟨talent, List.mem_append_right _ List.mem_cons_self, ?_⟩
          rw [Talent.blocks, beq_self_eq_true, Bool.true_or]
        · obtain ⟨survivor, hmem, hblocks⟩ := ih h (kept ++ [head])
          rw [List.append_assoc, List.singleton_append] at hmem
          exact ⟨survivor, hmem, hblocks⟩
  exact hkept []

/-- A talent that comes last has a place in the greedy choice exactly if no survivor keeps it out.
-/
theorem survives_length_iff_any {places : List Nat} (hgreedy : Greedy selection places)
    (hchosen : places.map (selection[·]?) = (survivors selection).map some)
    (hsame : ∀ other ∈ selection, other.id = talent.id → other = talent) :
    (∃ last, Survives (selection ++ [talent]) places selection.length last) ↔
      (survivors selection).any (·.blocks talent) = false := by
  have hmem (survivor : Talent) :
      survivor ∈ survivors selection ↔ ∃ j ∈ places, selection[j]? = some survivor := by
    rw [← List.mem_map_of_injective (Option.some_injective _), ← hchosen, List.mem_map]
  rw [survives_length_iff fun j hj => hgreedy.lt_length hj, List.any_eq_false]
  simp only [Bool.not_eq_true, Talent.blocks_eq_false_iff]
  constructor
  · rintro ⟨hfirst, hgoes⟩ survivor hsurvivor
    obtain ⟨j, hj, hfound⟩ := (hmem survivor).mp hsurvivor
    exact ⟨hfirst survivor (List.mem_of_getElem? hfound), hgoes j hj survivor hfound⟩
  · intro hfree
    refine ⟨fun other hother hid => ?_, fun j hj survivor hfound => ?_⟩
    -- An earlier occurrence need not have survived, but what kept it out keeps this one out too.
    · obtain rfl := hsame other hother hid
      obtain ⟨survivor, hsurvivor, hblocks⟩ := exists_blocks_of_mem hother
      rw [Talent.blocks_eq_false_iff.mpr (hfree survivor hsurvivor)] at hblocks
      cases hblocks
    · exact (hfree survivor ((hmem survivor).mpr ⟨j, hj, hfound⟩)).2

/-- **The choice is the greedy one.** -/
theorem exists_greedy_survivors (selection : List Talent)
    (hsame : ∀ talent ∈ selection, ∀ other ∈ selection, other.id = talent.id → other = talent) :
    ∃ places, Greedy selection places ∧
      places.map (selection[·]?) = (survivors selection).map some := by
  induction selection using List.reverseRecOn with
  | nil => exact ⟨[], greedy_nil, rfl⟩
  | append_singleton selection talent ih =>
    obtain ⟨hbefore, hlast⟩ := List.forall_mem_append.mp hsame
    obtain ⟨places, hgreedy, hchosen⟩ := ih fun earlier hearlier other hother =>
      hbefore earlier hearlier other (List.mem_append_left _ hother)
    have hsurvives := survives_length_iff_any hgreedy hchosen fun other hother =>
      List.forall_mem_singleton.mp hlast other (List.mem_append_left _ hother)
    have hplaces : places.map ((selection ++ [talent])[·]?) = (survivors selection).map some := by
      rw [← hchosen]
      exact List.map_congr_left fun j hj => List.getElem?_append_left (hgreedy.lt_length hj)
    rw [survivors_concat]
    cases hblocked : (survivors selection).any (·.blocks talent) with
    | true =>
      rw [hblocked] at hsurvives
      have hgreedy' := @Greedy.concat _ _ talent hgreedy [] (by simp) .nil
        (iff_of_false List.not_mem_nil fun hplace => Bool.noConfusion (hsurvives.mp hplace))
      rw [List.append_nil] at hgreedy'
      exact ⟨places, hgreedy', by rwa [if_pos rfl, List.append_nil]⟩
    | false =>
      have hgreedy' := @Greedy.concat _ _ talent hgreedy [selection.length] (by simp)
        (List.pairwise_singleton _ _)
        (iff_of_true (List.mem_singleton_self _) (hsurvives.mpr hblocked))
      refine ⟨places ++ [selection.length], hgreedy', ?_⟩
      rw [List.map_append, hplaces, List.map_singleton, List.getElem?_concat_length,
        if_neg Bool.false_ne_true, List.map_append, List.map_singleton]

/-! ## Choosing again -/

/-- Talents of which none keeps a later one out survive, all of them. -/
theorem survivorsFrom_eq_self
    (h : (kept ++ selection).Pairwise fun a b => a.blocks b = false) :
    survivorsFrom kept selection = selection := by
  induction selection generalizing kept with
  | nil => rfl
  | cons head rest ih =>
    have hfree : kept.any (·.blocks head) = false := by
      rw [List.any_eq_false]
      intro survivor hsurvivor
      rw [(List.pairwise_append.mp h).2.2 survivor hsurvivor head List.mem_cons_self]
      exact Bool.false_ne_true
    rw [← List.singleton_append, ← List.append_assoc] at h
    rw [survivorsFrom]
    refine (if_neg (Bool.eq_false_iff.mp hfree)).trans ?_
    rw [ih h]

/-- **All survivors survive again.** -/
theorem survivors_survivors (selection : List Talent) :
    survivors (survivors selection) = survivors selection :=
  survivorsFrom_eq_self (pairwise_survivors selection)

end

/-! ## What a selection settles -/

/-- Each id has its talent. -/
theorem map_find?_eq_iff {ids : List Int} {selection : List Talent} :
    ids.map rules.talents.find? = selection.map some ↔
      List.Forall₂ (fun id talent => rules.talents.find? id = some talent) ids selection := by
  rw [← List.forall₂_eq_eq_eq, List.forall₂_map_left_iff, List.forall₂_map_right_iff]

theorem survivor_settle (survivor : Talent) (state : SettlingState) :
    (settle rules survivor state).1.survivor = survivor := by
  rw [settle]
  split <;> rfl

/-- Each survivor is settled once, in order. -/
theorem survivors_settleEach (survivors : List Talent) (state : SettlingState) :
    (settleEach rules survivors state).1.map Settling.survivor = survivors := by
  induction survivors generalizing state with
  | nil => rfl
  | cons survivor rest ih =>
    rw [settleEach_cons, List.map_cons, survivor_settle, ih]

/-- A selection settles as its survivors do. -/
theorem resolve_survivors {ids : List Int} {selection : List Talent}
    (hkeyed : rules.talents.Keyed Talent.id) (h : rules.select ids = .ok selection)
    (person : Person) (source : Source) :
    resolve rules ((survivors selection).map Talent.id) person source =
      resolve rules ids person source := by
  have hagain : rules.select ((survivors selection).map Talent.id) = .ok (survivors selection) := by
    rw [select_eq_ok_iff, List.forall₂_map_left_iff, List.forall₂_same]
    exact fun survivor hsurvivor =>
      find?_of_mem_select hkeyed h survivor (mem_of_mem_survivorsFrom hsurvivor)
  rw [resolve, resolve, h, hagain]
  show (pure _ : Except Failure (Resolution × Source)) = pure _
  rw [survivors_survivors]

/-- The life depends on what a selection settles. -/
theorem simulateWith_withTalents {ids ids' : List Int}
    (h : ∀ person source, resolve rules ids person source = resolve rules ids' person source)
    (request : Request) (source : Source) :
    simulateWith rules (request.withTalents ids) source =
      simulateWith rules (request.withTalents ids') source := by
  have hresolve : resolve rules (request.withTalents ids).talents
      ((request.withTalents ids).person rules.settings) source =
      resolve rules (request.withTalents ids').talents
        ((request.withTalents ids').person rules.settings) source := h _ source
  rw [simulateWith, simulateWith, live, live, hresolve]
  rfl

/-- **A selection is settled by the greedy choice, and choosing again changes nothing.**  The
survivors are the talents at those places of the selection where a talent stands for the first time
that conflicts with none at an earlier one of these places; no other list of places has this law.
Each survivor is settled once, in this order, and the active talents are those that they became.  If
only the survivors are selected, everything is settled in the same way, and any request makes the
same session and draws the same. -/
theorem resolve_greedy (hloaded : rules.Loaded) {ids : List Int}
    (hknown : ∀ id ∈ ids, ∃ talent, rules.talents.find? id = some talent) :
    ∃ (selection : List Talent) (places : List Nat) (kept : List Talent),
      ids.map rules.talents.find? = selection.map some ∧
      Greedy selection places ∧ (∀ places', Greedy selection places' → places' = places) ∧
      places.map (selection[·]?) = kept.map some ∧
      (∀ (person : Person) (source : Source), ∃ resolution source',
        resolve rules ids person source = .ok (resolution, source') ∧
        resolve rules (kept.map Talent.id) person source = .ok (resolution, source') ∧
        resolution.settlings.map Settling.survivor = kept ∧
        resolution.settlings.map (fun settling => settling.target.id) = resolution.talents ∧
        resolution.tracker.active = resolution.talents) ∧
      ∀ (request : Request) (source : Source),
        simulateWith rules (request.withTalents (kept.map Talent.id)) source =
          simulateWith rules (request.withTalents ids) source := by
  have hkeyed := hloaded.coherent.talents
  obtain ⟨selection, hfound⟩ := Outcome.exists_forall₂ hknown
  have hselect := select_eq_ok_iff.mpr hfound
  have hfind := find?_of_mem_select hkeyed hselect
  obtain ⟨places, hgreedy, hchosen⟩ := exists_greedy_survivors selection
    fun talent htalent other hother hid => by
      have hother' := hfind other hother
      rw [hid, hfind talent htalent] at hother'
      exact (Option.some.inj hother').symm
  have hagain := resolve_survivors hkeyed hselect
  refine ⟨selection, places, survivors selection, map_find?_eq_iff.mpr hfound, hgreedy,
    fun places' hgreedy' => hgreedy'.unique hgreedy, hchosen, fun person source => ?_,
    simulateWith_withTalents hagain⟩
  rw [hagain, resolve, hselect]
  exact ⟨_, _, rfl, rfl, survivors_settleEach _ _, rfl, active_settleEach _ _ _⟩

/-! ## Talents that quarrel -/

/-- A draft of rules in which the first talent excludes the second, the second the third, the fourth
itself, and the fifth the first. -/
def quarrelsomeDraft : Draft where
  talents := [("1", { exclude := some [2] }), ("2", { exclude := some [3] }), ("3", {}),
    ("4", { exclude := some [4] }), ("5", { exclude := some [1] })]

/-- The rules of the draft. -/
def quarrelsomeRules : Ruleset where
  talents := .ofList [
    (1, { Talent.ofName 1 "" with exclude := [2] }),
    (2, { Talent.ofName 2 "" with exclude := [3] }),
    (3, .ofName 3 ""),
    (4, { Talent.ofName 4 "" with exclude := [4] }),
    (5, { Talent.ofName 5 "" with exclude := [1] })]
  events := .empty
  ages := .empty
  achievements := .empty
  rubrics := .empty
  settings := .standard

/-- Of a selection with all of them, some twice, the first, the third and the fourth survive: the
second, which was dropped, does not keep the third out. -/
theorem resolve_greedy_quarrelsome :
    quarrelsomeDraft.build = .ok quarrelsomeRules ∧
    (∀ id ∈ [1, 2, 3, 1, 4, 4, 5, 2], ∃ talent, quarrelsomeRules.talents.find? id = some talent) ∧
    (∃ (selection : List Talent) (places : List Nat) (kept : List Talent), Greedy selection places ∧
      places.map (selection[·]?) = kept.map some ∧ kept.map Talent.id = [1, 3, 4]) ∧
    ∀ (request : Request) (source : Source),
      simulateWith quarrelsomeRules (request.withTalents [1, 3, 4]) source =
        simulateWith quarrelsomeRules (request.withTalents [1, 2, 3, 1, 4, 4, 5, 2]) source := by
  have hbuild : quarrelsomeDraft.build = .ok quarrelsomeRules := rfl
  have hknown : ∀ id ∈ [1, 2, 3, 1, 4, 4, 5, 2],
      ∃ talent, quarrelsomeRules.talents.find? id = some talent := by
    simp only [← Option.isSome_iff_exists]
    decide
  have hids : ∃ resolution source', resolve quarrelsomeRules [1, 2, 3, 1, 4, 4, 5, 2]
      (.unborn .standard) (.seeded 0) = .ok (resolution, source') ∧
        (resolution.settlings.map Settling.survivor).map Talent.id = [1, 3, 4] := ⟨_, _, rfl, rfl⟩
  obtain ⟨selection, places, kept, -, hgreedy, -, hchosen, hsettled, hsession⟩ :=
    resolve_greedy (.build hbuild) hknown
  obtain ⟨resolution, source', hresolve, hkept⟩ := hids
  obtain ⟨resolution', source'', hresolve', -, hsurvivors, -⟩ :=
    hsettled (.unborn .standard) (.seeded 0)
  obtain ⟨rfl, -⟩ := Prod.mk.inj (Except.ok.inj (hresolve.symm.trans hresolve'))
  rw [hsurvivors] at hkept
  rw [hkept] at hsession
  exact ⟨hbuild, hknown, ⟨selection, places, kept, hgreedy, hchosen, hkept⟩, hsession⟩

end LifeCourse
