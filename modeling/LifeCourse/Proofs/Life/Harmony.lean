import LifeCourse.Life.Resolution
import LifeCourse.Proofs.Outcome
import LifeCourse.Proofs.Rules.Coherence
import Mathlib.Data.List.Pairwise

/-!
# Talents that go together

Some ids are in harmony if they are distinct, if the ruleset has a talent for each of them, and if
none of these talents excludes another one (`Ruleset.Harmony`).  The ids that survive a selection
are in harmony (`harmony_survivors`), and a walk of replacements keeps them so (`harmony_walk`).

## Why a walk keeps harmony

A candidate is held against everything that is taken, the talent that it would replace included,
and only then does that talent give up its place.  So the candidate is new and goes with all that
remain.  The walk has one place of its own among those taken; the others do not move.
-/

namespace LifeCourse

variable {rules : Ruleset}

/-- The ids are distinct, the ruleset has a talent for each, and none of these excludes another
one. -/
structure Ruleset.Harmony (rules : Ruleset) (ids : List Int) : Prop where
  nodup : ids.Nodup
  known : ∀ id ∈ ids, ∃ talent, rules.talents.find? id = some talent
  apart : ∀ id ∈ ids, ∀ other ∈ ids, id ≠ other →
    ∀ talent, rules.talents.find? id = some talent → talent.excludes other = false

namespace Ruleset

/-- A part of the ids is in harmony. -/
theorem Harmony.part {ids ids' : List Int} (h : rules.Harmony ids) (hnodup : ids'.Nodup)
    (hsub : ids' ⊆ ids) : rules.Harmony ids' where
  nodup := hnodup
  known := fun id hid => h.known id (hsub hid)
  apart := fun id hid other hother => h.apart id (hsub hid) other (hsub hother)

/-- The order of the ids is of no account. -/
theorem Harmony.perm {ids ids' : List Int} (h : rules.Harmony ids) (hperm : ids.Perm ids') :
    rules.Harmony ids' :=
  h.part (hperm.nodup_iff.mp h.nodup) hperm.symm.subset

/-- **One more talent.**  A new one that goes with all of them may join. -/
theorem Harmony.concat (hkeyed : rules.talents.Keyed Talent.id) {ids : List Int}
    (h : rules.Harmony ids) {talent : Talent}
    (hfind : rules.talents.find? talent.id = some talent) (hnew : talent.id ∉ ids)
    (hgoes : ∀ id ∈ ids, ∀ held, rules.talents.find? id = some held →
      held.conflicts talent = false) :
    rules.Harmony (ids ++ [talent.id]) := by
  have hsplit : ∀ id ∈ ids ++ [talent.id], id ∈ ids ∨ id = talent.id := fun id hid =>
    (List.mem_append.mp hid).imp_right List.mem_singleton.mp
  have hside : ∀ id ∈ ids, ∀ held, rules.talents.find? id = some held →
      held.excludes talent.id = false ∧ talent.excludes id = false := by
    intro id hid held hheld
    have hconflicts := hgoes id hid held hheld
    rw [Talent.conflicts, Bool.or_eq_false_iff, hkeyed id held hheld] at hconflicts
    exact hconflicts
  refine ⟨?_, fun id hid => ?_, fun id hid other hother hne found hfound => ?_⟩
  · refine List.nodup_append.mpr ⟨h.nodup, List.pairwise_singleton _ _, ?_⟩
    rintro id hid _ hmem rfl
    rw [List.mem_singleton.mp hmem] at hid
    exact hnew hid
  · rcases hsplit id hid with hid | rfl
    · exact h.known id hid
    · exact ⟨talent, hfind⟩
  · rcases hsplit id hid with hid | rfl
    · rcases hsplit other hother with hother | rfl
      · exact h.apart id hid other hother hne found hfound
      · exact (hside id hid found hfound).1
    · rcases hsplit other hother with hother | rfl
      · obtain ⟨held, hheld⟩ := h.known other hother
        obtain rfl := Option.some.inj (hfind.symm.trans hfound)
        exact (hside other hother held hheld).2
      · exact absurd rfl hne

/-- What the talents with some ids are asked, put as a question about each id. -/
theorem not_any_known_iff {ids : List Int} {p : Talent → Bool} :
    (!(rules.known ids).any p) = true ↔
      ∀ id ∈ ids, ∀ held, rules.talents.find? id = some held → p held = false := by
  rw [Bool.not_eq_true', List.any_eq_false]
  constructor
  · intro h id hid held hheld
    exact Bool.eq_false_iff.mpr (h held (List.mem_filterMap.mpr ⟨id, hid, hheld⟩))
  · intro h held hmem
    obtain ⟨id, hid, hheld⟩ := List.mem_filterMap.mp hmem
    exact Bool.eq_false_iff.mp (h id hid held hheld)

end Ruleset

/-! ## Survivors -/

/-- **A selection consists of the talents with the ids, in order.** -/
theorem select_eq_ok_iff {ids : List Int} {selection : List Talent} :
    rules.select ids = .ok selection ↔
      List.Forall₂ (fun id talent => rules.talents.find? id = some talent) ids selection := by
  rw [Ruleset.select, Outcome.mapM_eq_ok_iff]
  constructor
  · refine fun h => h.imp fun id talent hselected => ?_
    split at hselected
    · rename_i found hfound
      rw [hfound, Except.ok.inj hselected]
    · cases hselected
  · refine fun h => h.imp fun id talent hfind => ?_
    rw [hfind]

/-- The talents of a selection are talents of the ruleset. -/
theorem mem_values_of_mem_select {ids : List Int} {selection : List Talent}
    (h : rules.select ids = .ok selection) :
    ∀ talent ∈ selection, talent ∈ rules.talents.values := by
  intro talent hmem
  obtain ⟨id, -, hfind⟩ := Outcome.exists_of_mem_right (select_eq_ok_iff.mp h) talent hmem
  exact Table.mem_values_iff.mpr ⟨id, hfind⟩

/-- A talent that survives was selected. -/
theorem mem_of_mem_survivorsFrom {kept selection : List Talent} {talent : Talent}
    (h : talent ∈ survivorsFrom kept selection) : talent ∈ selection := by
  induction selection generalizing kept with
  | nil => exact absurd h List.not_mem_nil
  | cons head rest ih =>
    rw [survivorsFrom] at h
    split at h
    · exact List.mem_cons_of_mem _ (ih h)
    · rcases List.mem_cons.mp h with rfl | h
      · exact List.mem_cons_self
      · exact List.mem_cons_of_mem _ (ih h)

theorem mem_values_of_mem_survivors {ids : List Int} {selection : List Talent}
    (h : rules.select ids = .ok selection) :
    ∀ talent ∈ survivors selection, talent ∈ rules.talents.values := fun talent hmem =>
  mem_values_of_mem_select h talent (mem_of_mem_survivorsFrom hmem)

theorem find?_of_mem_select (hkeyed : rules.talents.Keyed Talent.id) {ids : List Int}
    {selection : List Talent} (h : rules.select ids = .ok selection) :
    ∀ talent ∈ selection, rules.talents.find? talent.id = some talent := fun talent hmem =>
  hkeyed.find?_of_mem_values (mem_values_of_mem_select h talent hmem)

/-- Whether a talent that survives keeps a later one from it. -/
def Talent.blocks (survivor talent : Talent) : Bool :=
  survivor.id == talent.id || survivor.conflicts talent

theorem Talent.blocks_eq_false_iff {survivor talent : Talent} :
    survivor.blocks talent = false ↔ survivor.id ≠ talent.id ∧
      survivor.excludes talent.id = false ∧ talent.excludes survivor.id = false := by
  rw [blocks, conflicts, Bool.or_eq_false_iff, Bool.or_eq_false_iff, beq_eq_false_iff_ne]

theorem Talent.blocks_comm (a b : Talent) : a.blocks b = b.blocks a := by
  rw [blocks, blocks, conflicts_comm, Bool.beq_comm]

/-- No survivor keeps a later one out. -/
theorem pairwise_survivorsFrom {kept selection : List Talent}
    (h : kept.Pairwise fun a b => a.blocks b = false) :
    (kept ++ survivorsFrom kept selection).Pairwise fun a b => a.blocks b = false := by
  induction selection generalizing kept with
  | nil => rwa [survivorsFrom, List.append_nil]
  | cons head rest ih =>
    rw [survivorsFrom]
    split
    · exact ih h
    · rename_i hnone
      have hfree : ∀ survivor ∈ kept, survivor.blocks head = false := fun survivor hsurvivor =>
        Bool.eq_false_iff.mpr (List.any_eq_false.mp (Bool.eq_false_iff.mpr hnone) survivor hsurvivor)
      have hjoined := @ih (kept ++ [head]) <| List.pairwise_append.mpr
        ⟨h, List.pairwise_singleton _ _, fun survivor hsurvivor _ hhead => by
          rw [List.mem_singleton.mp hhead]
          exact hfree survivor hsurvivor⟩
      rwa [List.append_assoc] at hjoined

theorem pairwise_survivors (selection : List Talent) :
    (survivors selection).Pairwise fun a b => a.blocks b = false :=
  pairwise_survivorsFrom .nil

/-- **Survivors are in harmony.** -/
theorem harmony_survivors (hkeyed : rules.talents.Keyed Talent.id) {ids : List Int}
    {selection : List Talent} (h : rules.select ids = .ok selection) :
    rules.Harmony ((survivors selection).map Talent.id) := by
  have hfind : ∀ talent ∈ survivors selection, rules.talents.find? talent.id = some talent :=
    fun talent hmem => find?_of_mem_select hkeyed h talent (mem_of_mem_survivorsFrom hmem)
  have hpairwise := pairwise_survivors selection
  refine ⟨List.pairwise_map.mpr (hpairwise.imp fun hfree => ?_), ?_, ?_⟩
  · exact (Talent.blocks_eq_false_iff.mp hfree).1
  · intro id hid
    obtain ⟨talent, hmem, rfl⟩ := List.mem_map.mp hid
    exact ⟨talent, hfind talent hmem⟩
  · intro id hid other hother hne found hfound
    obtain ⟨talent, hmem, rfl⟩ := List.mem_map.mp hid
    obtain ⟨talent', hmem', rfl⟩ := List.mem_map.mp hother
    obtain rfl := Option.some.inj ((hfind talent hmem).symm.trans hfound)
    have hsymm : Std.Symm fun a b : Talent => a.blocks b = false :=
      ⟨fun a b hfree => (b.blocks_comm a).trans hfree⟩
    have hfree := hpairwise.forall hmem hmem' (ne_of_apply_ne Talent.id hne)
    exact (Talent.blocks_eq_false_iff.mp hfree).2.1

/-! ## Walks -/

/-- What stands among the candidates of a rule, by its grade or by its name. -/
theorem mem_candidates_iff {rule : Replacement} {eligible : Talent → Bool} {talent : Talent}
    {weight : Float} :
    (talent, weight) ∈ candidates rules rule eligible ↔ eligible talent = true ∧
      (talent ∈ rules.talents.values ∧ (talent.grade, weight) ∈ rule.grades ∨
        ∃ id, rules.talents.find? id = some talent ∧ (id, weight) ∈ rule.talents) := by
  rw [candidates, List.mem_append]
  constructor
  · rintro (h | h)
    · obtain ⟨entry, hentry, h⟩ := List.mem_flatMap.mp h
      obtain ⟨_, htalent, heq⟩ := List.mem_map.mp h
      obtain ⟨rfl, rfl⟩ := Prod.mk.inj heq
      obtain ⟨hvalue, hmet⟩ := List.mem_filter.mp htalent
      obtain ⟨hgrade, heligible⟩ := Bool.and_eq_true_iff.mp hmet
      exact ⟨heligible, .inl ⟨hvalue, by rwa [eq_of_beq hgrade]⟩⟩
    · obtain ⟨entry, hentry, h⟩ := List.mem_filterMap.mp h
      obtain ⟨_, htalent, heq⟩ := Option.map_eq_some_iff.mp h
      obtain ⟨rfl, rfl⟩ := Prod.mk.inj heq
      obtain ⟨hfind, heligible⟩ := Option.filter_eq_some_iff.mp htalent
      exact ⟨heligible, .inr ⟨entry.1, hfind, hentry⟩⟩
  · rintro ⟨heligible, ⟨hvalue, hgrade⟩ | ⟨id, hfind, hname⟩⟩
    · refine .inl (List.mem_flatMap.mpr ⟨_, hgrade, List.mem_map.mpr ⟨talent, ?_, rfl⟩⟩)
      rw [List.mem_filter, beq_self_eq_true, heligible]
      exact ⟨hvalue, rfl⟩
    · refine .inr (List.mem_filterMap.mpr ⟨_, hname, ?_⟩)
      rw [hfind, Option.filter_some, if_pos heligible, Option.map_some]

/-- A candidate is a talent of the ruleset, and eligible. -/
theorem of_mem_candidates {rule : Replacement} {eligible : Talent → Bool} {entry : Talent × Float}
    (h : entry ∈ candidates rules rule eligible) :
    entry.1 ∈ rules.talents.values ∧ eligible entry.1 = true := by
  obtain ⟨heligible, ⟨hvalue, -⟩ | ⟨id, hfind, -⟩⟩ := mem_candidates_iff.mp h
  · exact ⟨hvalue, heligible⟩
  · exact ⟨Table.mem_values_iff.mpr ⟨id, hfind⟩, heligible⟩

/-- The talent that is drawn to replace another one is a talent of the ruleset, is new, and goes
with everything that is taken. -/
theorem of_drawReplacement {talent next : Talent} {taken : List Int} {source source' : Source}
    (h : drawReplacement rules talent taken source = (some next, source')) :
    next ∈ rules.talents.values ∧ next.id ∉ taken ∧
      ∀ id ∈ taken, ∀ held, rules.talents.find? id = some held →
        held.conflicts next = false := by
  unfold drawReplacement at h
  split at h
  · cases (Prod.mk.inj h).1
  · rename_i rule _
    obtain ⟨weight, hmem, -⟩ := Source.mem_of_pick_eq_some (congrArg Prod.fst h)
    obtain ⟨hvalue, heligible⟩ := of_mem_candidates hmem
    simp only [isCandidate, Bool.and_eq_true] at heligible
    obtain ⟨⟨-, hnew⟩, hgoes⟩ := heligible
    exact ⟨hvalue, by simpa using hnew, Ruleset.not_any_known_iff.mp hgoes⟩

/-- A walk comes to talents of the ruleset. -/
theorem mem_values_of_mem_walk {steps : Nat} {talent : Talent} {taken : List Int} {source : Source}
    {path : List Talent} {rest : List Int × Source}
    (hwalk : walk rules steps talent taken source = (path, rest)) :
    ∀ next ∈ path, next ∈ rules.talents.values := by
  induction steps generalizing talent taken source path rest with
  | zero =>
    rw [walk] at hwalk
    cases hwalk
    exact fun _ hmem => absurd hmem List.not_mem_nil
  | succ steps ih =>
    rw [walk] at hwalk
    split at hwalk
    · cases hwalk
      exact fun _ hmem => absurd hmem List.not_mem_nil
    · rename_i next source₁ hdraw
      obtain ⟨hvalue, -, -⟩ := of_drawReplacement hdraw
      rcases hwalk' : walk rules steps next (taken.filter (· != talent.id) ++ [next.id]) source₁
        with ⟨path', rest'⟩
      simp only [hwalk'] at hwalk
      cases hwalk
      exact List.forall_mem_cons.mpr ⟨hvalue, ih hwalk'⟩

/-- A walk ends with a talent of the ruleset. -/
theorem getLast?_walk_mem_values {steps : Nat} {talent : Talent} {taken : List Int}
    {source : Source} {path : List Talent} {rest : List Int × Source}
    (hwalk : walk rules steps talent taken source = (path, rest))
    (htalent : talent ∈ rules.talents.values) :
    path.getLast?.getD talent ∈ rules.talents.values := by
  cases hlast : path.getLast? with
  | none => exact htalent
  | some target => exact mem_values_of_mem_walk hwalk target (List.mem_of_getLast? hlast)

/-- **A walk keeps harmony.**  Its place among those taken goes to the talent at its end; the
others keep theirs. -/
theorem harmony_walk (hkeyed : rules.talents.Keyed Talent.id) {steps : Nat} {talent : Talent}
    {taken taken' others : List Int} {source source' : Source} {path : List Talent}
    (hwalk : walk rules steps talent taken source = (path, taken', source'))
    (hplace : taken.Perm (talent.id :: others)) (h : rules.Harmony taken) :
    rules.Harmony taken' ∧ taken'.Perm ((path.getLast?.getD talent).id :: others) := by
  induction steps generalizing talent taken source path with
  | zero =>
    rw [walk] at hwalk
    cases hwalk
    exact ⟨h, hplace⟩
  | succ steps ih =>
    rw [walk] at hwalk
    split at hwalk
    · cases hwalk
      exact ⟨h, hplace⟩
    · rename_i next source₁ hdraw
      obtain ⟨hvalue, hnew, hgoes⟩ := of_drawReplacement hdraw
      have hfind := hkeyed.find?_of_mem_values hvalue
      have hnot : talent.id ∉ others := (List.nodup_cons.mp (hplace.nodup_iff.mp h.nodup)).1
      have hothers : (taken.filter (· != talent.id)).Perm others := by
        have hself : others.filter (· != talent.id) = others := by
          rw [List.filter_eq_self]
          intro id hid
          rw [bne_iff_ne]
          rintro rfl
          exact hnot hid
        have hfilter := hplace.filter (· != talent.id)
        rwa [List.filter_cons_of_neg (by simp), hself] at hfilter
      have hrest : taken.filter (· != talent.id) ⊆ taken := List.filter_subset_self _
      have hjoined : rules.Harmony (taken.filter (· != talent.id) ++ [next.id]) :=
        (h.part (h.nodup.filter _) hrest).concat hkeyed hfind (fun hmem => hnew (hrest hmem))
          fun id hid => hgoes id (hrest hid)
      have hplace' : (taken.filter (· != talent.id) ++ [next.id]).Perm (next.id :: others) :=
        (hothers.append_right _).trans List.perm_append_comm
      rcases hwalk' : walk rules steps next (taken.filter (· != talent.id) ++ [next.id]) source₁
        with ⟨path', taken'', source''⟩
      simp only [hwalk'] at hwalk
      cases hwalk
      rw [List.getLast?_cons, Option.getD_some]
      exact ih hwalk' hplace' hjoined

end LifeCourse
