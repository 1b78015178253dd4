import LifeCourse.Proofs.Draft.Building
import Mathlib.Data.List.Perm.Basic
import Mathlib.Data.Option.Basic

/-!
# Weights in another order

The weights of a replacement are sorted by the numbers that their keys spell, so that their order
in a document should not matter.  It does not as long as keys that spell one number come with one
weight (`WeightsAgree`).  But `1` and `01` are different keys for one number, the sort keeps the
order of what it cannot tell apart, and then the order of the document decides
(`buildWeights_perm_iff`).

The same is then said of the replacement and of the talent to which the weights belong
(`TalentDraft.build_reordered_iff`).
-/

namespace LifeCourse

/-- Weights whose keys spell one number are equal. -/
def WeightsAgree (weights : List (String × Float)) : Prop :=
  ∀ a ∈ weights, ∀ b ∈ weights,
    spacedWhole? a.1.toList = spacedWhole? b.1.toList → a.2 = b.2

/-- The order in which weights are sorted. -/
def weightLe (a b : Int × Float) : Bool :=
  a.1 ≤ b.1

theorem weightLe_trans (a b c : Int × Float) (hab : weightLe a b) (hbc : weightLe b c) :
    weightLe a c := by
  rw [weightLe, decide_eq_true_iff] at *
  omega

theorem weightLe_total (a b : Int × Float) : weightLe a b || weightLe b a := by
  rw [Bool.or_eq_true, weightLe, weightLe, decide_eq_true_iff, decide_eq_true_iff]
  omega

/-- An entry of the sorted weights is what an entry of the draft spells. -/
def IsSpelled (weight : String × Float) (entry : Int × Float) : Prop :=
  spacedWhole? weight.1.toList = some entry.1 ∧ weight.2 = entry.2

variable {talent : Int} {part : ReplacementPart} {weights : List (String × Float)}
  {sorted : List (Int × Float)}

/-- One of the weights, with its key read. -/
def readWeight (talent : Int) (part : ReplacementPart) (weight : String × Float) :
    Except Fault (Int × Float) :=
  match spacedWhole? weight.1.toList with
  | some key => .ok (key, weight.2)
  | none => .error (.replacementKey talent part weight.1)

theorem readWeight_eq_ok_iff {weight : String × Float} {entry : Int × Float} :
    readWeight talent part weight = .ok entry ↔ IsSpelled weight entry := by
  unfold readWeight IsSpelled
  cases spacedWhole? weight.1.toList with
  | none =>
    constructor
    · intro h
      cases h
    · rintro ⟨h, -⟩
      cases h
  | some key => rw [Except.ok.injEq, Option.some.injEq, Prod.ext_iff]

/-- **Weights are what their entries spell, sorted.** -/
theorem buildWeights_eq_ok_iff :
    buildWeights talent part weights = .ok sorted ↔
      ∃ entries, List.Forall₂ IsSpelled weights entries ∧
        sorted = entries.mergeSort weightLe := by
  have hread : buildWeights talent part weights = (weights.mapM (readWeight talent part)).bind
      fun entries => .ok (entries.mergeSort weightLe) := rfl
  rw [hread, Outcome.bind_eq_ok_iff]
  constructor
  · rintro ⟨entries, hentries, h⟩
    refine ⟨entries, ?_, (Except.ok.inj h).symm⟩
    exact (Outcome.mapM_eq_ok_iff.mp hentries).imp fun _ _ => readWeight_eq_ok_iff.mp
  · rintro ⟨entries, hentries, rfl⟩
    refine ⟨entries, Outcome.mapM_eq_ok_iff.mpr ?_, rfl⟩
    exact hentries.imp fun _ _ => readWeight_eq_ok_iff.mpr

/-- Weights that stand in order build what their entries spell. -/
theorem buildWeights_of_pairwise (hspelled : List.Forall₂ IsSpelled weights sorted)
    (hsorted : sorted.Pairwise fun a b => a.1 ≤ b.1) :
    buildWeights talent part weights = .ok sorted := by
  refine buildWeights_eq_ok_iff.mpr ⟨sorted, hspelled, (List.mergeSort_of_pairwise ?_).symm⟩
  exact hsorted.imp fun hle => decide_eq_true hle

/-- Weights build if their keys can be read. -/
theorem exists_buildWeights_iff :
    (∃ sorted, buildWeights talent part weights = .ok sorted) ↔
      ∀ weight ∈ weights, ∃ entry, IsSpelled weight entry := by
  constructor
  · rintro ⟨sorted, h⟩ weight hmem
    obtain ⟨entries, hentries, -⟩ := buildWeights_eq_ok_iff.mp h
    obtain ⟨entry, -, hspelled⟩ := Outcome.exists_of_mem_left hentries weight hmem
    exact ⟨entry, hspelled⟩
  · intro h
    obtain ⟨entries, hentries⟩ := Outcome.exists_forall₂ h
    exact ⟨_, buildWeights_eq_ok_iff.mpr ⟨entries, hentries, rfl⟩⟩

/-- Of weights for one number the first one comes first. -/
theorem find?_of_buildWeights_cons {weight : String × Float}
    (h : buildWeights talent part (weight :: weights) = .ok sorted) :
    ∃ key, spacedWhole? weight.1.toList = some key ∧
      sorted.find? (fun entry => entry.1 = key) = some (key, weight.2) := by
  obtain ⟨entries, hentries, rfl⟩ := buildWeights_eq_ok_iff.mp h
  obtain ⟨⟨key, value⟩, rest, ⟨hkey, hvalue⟩, -, rfl⟩ := List.forall₂_cons_left_iff.mp hentries
  obtain ⟨before, after, hsorted, -, hbefore⟩ :=
    List.mergeSort_cons weightLe_trans weightLe_total (key, value) rest
  have hnone : before.find? (fun entry => entry.1 = key) = none := by
    rw [List.find?_eq_none]
    intro entry hmem heq
    have hnot := hbefore entry hmem
    rw [Bool.not_eq_true', weightLe, decide_eq_false_iff_not] at hnot
    exact hnot (Int.le_of_eq (of_decide_eq_true heq).symm)
  refine ⟨key, hkey, ?_⟩
  rw [hsorted, List.find?_append, hnone, hvalue]
  simp

/-- **When the order of weights does not matter.** -/
theorem buildWeights_perm_iff (h : buildWeights talent part weights = .ok sorted) :
    (∀ weights', weights.Perm weights' → buildWeights talent part weights' = .ok sorted) ↔
      WeightsAgree weights := by
  constructor
  · intro hall
    have hfirst : ∀ a ∈ weights, ∃ key, spacedWhole? a.1.toList = some key ∧
        sorted.find? (fun entry => entry.1 = key) = some (key, a.2) := by
      intro a ha
      obtain ⟨front, back, rfl⟩ := List.append_of_mem ha
      exact find?_of_buildWeights_cons (hall _ List.perm_middle)
    intro a ha b hb hsame
    obtain ⟨key, hkey, hfound⟩ := hfirst a ha
    obtain ⟨key', hkey', hfound'⟩ := hfirst b hb
    rw [hkey, hkey', Option.some.injEq] at hsame
    rw [← hsame, hfound, Option.some.injEq] at hfound'
    exact (Prod.mk.inj hfound').2
  · intro hagree weights' hperm
    obtain ⟨entries, hentries, rfl⟩ := buildWeights_eq_ok_iff.mp h
    obtain ⟨entries', hentries', hperm'⟩ := List.perm_comp_forall₂ hperm.symm hentries
    refine buildWeights_eq_ok_iff.mpr ⟨entries', hentries', ?_⟩
    have hsorts : (entries.mergeSort weightLe).Perm (entries'.mergeSort weightLe) :=
      ((List.mergeSort_perm _ _).trans hperm'.symm).trans (List.mergeSort_perm _ _).symm
    refine List.Perm.eq_of_pairwise ?_ (List.pairwise_mergeSort weightLe_trans weightLe_total _)
      (List.pairwise_mergeSort weightLe_trans weightLe_total _) hsorts
    intro a b ha hb hab hba
    rw [weightLe, decide_eq_true_iff] at hab hba
    have hkey : a.1 = b.1 := by omega
    have ha : a ∈ entries := List.mem_mergeSort.mp ha
    have hb : b ∈ entries := hperm'.subset (List.mem_mergeSort.mp hb)
    obtain ⟨weight, hweight, hspelled, hvalue⟩ := Outcome.exists_of_mem_right hentries a ha
    obtain ⟨weight', hweight', hspelled', hvalue'⟩ := Outcome.exists_of_mem_right hentries b hb
    have heq := hagree weight hweight weight' hweight' (by rw [hspelled, hspelled', hkey])
    rw [hvalue, hvalue'] at heq
    exact Prod.ext hkey heq

/-! ## Replacements -/

/-- The same replacement with each of its lists in some order. -/
structure ReplacementDraft.Reordered (rule rule' : ReplacementDraft) : Prop where
  grades : rule.grades.Perm rule'.grades
  talents : rule.talents.Perm rule'.talents

/-- In both lists, weights whose keys spell one number are equal. -/
structure ReplacementDraft.Agrees (rule : ReplacementDraft) : Prop where
  grades : WeightsAgree rule.grades
  talents : WeightsAgree rule.talents

namespace ReplacementDraft

variable {rule rule' : ReplacementDraft} {replacement : Replacement}

theorem build_eq_ok_iff :
    rule.build talent = .ok replacement ↔
      buildWeights talent .grade rule.grades = .ok replacement.grades ∧
      buildWeights talent .talent rule.talents = .ok replacement.talents := by
  constructor
  · intro h
    obtain ⟨grades, hgrades, h⟩ := Outcome.bind_eq_ok_iff.mp h
    obtain ⟨talents, htalents, h⟩ := Outcome.bind_eq_ok_iff.mp h
    obtain rfl := Except.ok.inj h
    exact ⟨hgrades, htalents⟩
  · rintro ⟨hgrades, htalents⟩
    exact Outcome.bind_eq_ok_iff.mpr
      ⟨_, hgrades, Outcome.bind_eq_ok_iff.mpr ⟨_, htalents, rfl⟩⟩

/-- A replacement whose weights stand in order builds what their entries spell. -/
theorem build_of_pairwise (hgrades : List.Forall₂ IsSpelled rule.grades replacement.grades)
    (htalents : List.Forall₂ IsSpelled rule.talents replacement.talents)
    (hgradesSorted : replacement.grades.Pairwise fun a b => a.1 ≤ b.1)
    (htalentsSorted : replacement.talents.Pairwise fun a b => a.1 ≤ b.1) :
    rule.build talent = .ok replacement :=
  build_eq_ok_iff.mpr
    ⟨buildWeights_of_pairwise hgrades hgradesSorted, buildWeights_of_pairwise htalents htalentsSorted⟩

theorem build_reordered_iff (h : rule.build talent = .ok replacement) :
    (∀ rule', rule.Reordered rule' → rule'.build talent = .ok replacement) ↔ rule.Agrees := by
  obtain ⟨hgrades, htalents⟩ := build_eq_ok_iff.mp h
  constructor
  · intro hall
    refine ⟨(buildWeights_perm_iff hgrades).mp fun grades hperm => ?_,
      (buildWeights_perm_iff htalents).mp fun talents hperm => ?_⟩
    · exact (build_eq_ok_iff.mp (hall { rule with grades := grades } ⟨hperm, .refl _⟩)).1
    · exact (build_eq_ok_iff.mp (hall { rule with talents := talents } ⟨.refl _, hperm⟩)).2
  · rintro ⟨hagree, hagree'⟩ rule' ⟨hperm, hperm'⟩
    exact build_eq_ok_iff.mpr ⟨(buildWeights_perm_iff hgrades).mpr hagree _ hperm,
      (buildWeights_perm_iff htalents).mpr hagree' _ hperm'⟩

theorem exists_build_iff :
    (∃ replacement, rule.build talent = .ok replacement) ↔
      (∀ weight ∈ rule.grades, ∃ entry, IsSpelled weight entry) ∧
      ∀ weight ∈ rule.talents, ∃ entry, IsSpelled weight entry := by
  rw [← exists_buildWeights_iff, ← exists_buildWeights_iff]
  constructor
  · rintro ⟨replacement, h⟩
    obtain ⟨hgrades, htalents⟩ := build_eq_ok_iff.mp h
    exact ⟨⟨_, hgrades⟩, ⟨_, htalents⟩⟩
  · rintro ⟨⟨grades, hgrades⟩, ⟨talents, htalents⟩⟩
    exact ⟨⟨grades, talents⟩, build_eq_ok_iff.mpr ⟨hgrades, htalents⟩⟩

theorem Reordered.exists_build_iff (h : rule.Reordered rule') :
    (∃ replacement, rule.build talent = .ok replacement) ↔
      ∃ replacement, rule'.build talent = .ok replacement := by
  rw [ReplacementDraft.exists_build_iff, ReplacementDraft.exists_build_iff]
  simp only [h.grades.mem_iff, h.talents.mem_iff]

end ReplacementDraft

/-! ## Talents -/

/-- The same talent with the weights of its replacement in some order. -/
structure TalentDraft.Reordered (draft draft' : TalentDraft) : Prop where
  replacement : Option.Rel ReplacementDraft.Reordered draft.replacement draft'.replacement
  rest : draft' = { draft with replacement := draft'.replacement }

namespace TalentDraft

variable {key : String} {draft draft' : TalentDraft} {result : Talent}

theorem reordered_refl (draft : TalentDraft) : draft.Reordered draft := by
  refine ⟨?_, rfl⟩
  cases draft.replacement with
  | none => exact .none
  | some rule => exact .some ⟨.refl _, .refl _⟩

/-- The replacement of a talent that builds. -/
theorem replacement_of_build (h : draft.build key = .ok result) :
    ∃ id, entityId .talent key draft.id = .ok id ∧
      (draft.replacement.mapM (ReplacementDraft.build id)) = .ok result.replacement := by
  obtain ⟨id, hid, h⟩ := Outcome.bind_eq_ok_iff.mp h
  obtain ⟨replacement, hreplacement, h⟩ := Outcome.bind_eq_ok_iff.mp h
  obtain rfl := Except.ok.inj h
  exact ⟨id, hid, hreplacement⟩

/-- Of its replacement a talent depends on no more than what it builds. -/
theorem build_congr {replacement : Option ReplacementDraft}
    (h : ∀ id, entityId .talent key draft.id = .ok id →
      replacement.mapM (ReplacementDraft.build id) =
        draft.replacement.mapM (ReplacementDraft.build id)) :
    TalentDraft.build key { draft with replacement := replacement } = draft.build key := by
  unfold TalentDraft.build
  cases hid : entityId .talent key draft.id with
  | error fault => rfl
  | ok id =>
    show ((replacement.mapM (ReplacementDraft.build id)).bind fun _ => _) =
      (draft.replacement.mapM (ReplacementDraft.build id)).bind fun _ => _
    rw [h id hid]

theorem mapM_some_eq_ok_iff {rule : ReplacementDraft} {id : Int}
    {replacement : Option Replacement} :
    (some rule).mapM (ReplacementDraft.build id) = .ok replacement ↔
      ∃ built, rule.build id = .ok built ∧ replacement = some built := by
  have hmap : (some rule).mapM (ReplacementDraft.build id) =
      (rule.build id).bind fun built => .ok (some built) := rfl
  rw [hmap, Outcome.bind_eq_ok_iff]
  simp only [Except.ok.injEq, eq_comm]

/-- A talent that builds without its replacement builds with it, if that builds. -/
theorem build_of_replacement (draft : TalentDraft) {rule : ReplacementDraft} {built : Replacement}
    (hplain : TalentDraft.build key { draft with replacement := none } = .ok result)
    (hbuilt : rule.build result.id = .ok built) :
    TalentDraft.build key { draft with replacement := some rule } =
      .ok { result with replacement := some built } := by
  obtain ⟨id, hid, hplain⟩ := Outcome.bind_eq_ok_iff.mp hplain
  obtain rfl := Except.ok.inj hplain
  exact Outcome.bind_eq_ok_iff.mpr ⟨id, hid, Outcome.bind_eq_ok_iff.mpr
    ⟨_, mapM_some_eq_ok_iff.mpr ⟨built, hbuilt, rfl⟩, rfl⟩⟩

/-- **When the order of a talent's weights does not matter.** -/
theorem build_reordered_iff (h : draft.build key = .ok result) :
    (∀ draft', draft.Reordered draft' → draft'.build key = .ok result) ↔
      ∀ rule ∈ draft.replacement, rule.Agrees := by
  obtain ⟨id, hid, hreplacement⟩ := replacement_of_build h
  constructor
  · intro hall rule hrule
    have hrule : draft.replacement = some rule := hrule
    rw [hrule, mapM_some_eq_ok_iff] at hreplacement
    obtain ⟨built, hbuilt, hreplacement⟩ := hreplacement
    refine (ReplacementDraft.build_reordered_iff hbuilt).mp fun rule' hreordered => ?_
    have hdraft' := hall { draft with replacement := some rule' }
      ⟨by rw [hrule]; exact .some hreordered, rfl⟩
    obtain ⟨id', hid', hreplacement'⟩ := replacement_of_build hdraft'
    obtain rfl := Except.ok.inj (hid.symm.trans hid')
    obtain ⟨built', hbuilt', hsame⟩ := mapM_some_eq_ok_iff.mp hreplacement'
    rw [hreplacement, Option.some.injEq] at hsame
    rw [hbuilt', hsame]
  · rintro hagree draft' ⟨hreordered, hrest⟩
    rw [hrest, ← h]
    refine build_congr fun id' hid' => ?_
    obtain rfl := Except.ok.inj (hid.symm.trans hid')
    generalize draft'.replacement = replacement' at hreordered
    rcases hrule : draft.replacement with _ | rule
    · rw [hrule] at hreordered
      cases hreordered
      rfl
    · rw [hrule] at hreordered hreplacement
      rcases hreordered with ⟨hreordered⟩ | _
      obtain ⟨built, hbuilt, -⟩ := mapM_some_eq_ok_iff.mp hreplacement
      have hbuilt' :=
        (ReplacementDraft.build_reordered_iff hbuilt).mpr (hagree rule hrule) _ hreordered
      rw [mapM_some_eq_ok_iff.mpr ⟨built, hbuilt, rfl⟩,
        mapM_some_eq_ok_iff.mpr ⟨built, hbuilt', rfl⟩]

theorem exists_build_iff :
    (∃ result, draft.build key = .ok result) ↔
      ∃ id, entityId .talent key draft.id = .ok id ∧
        ∃ replacement, draft.replacement.mapM (ReplacementDraft.build id) = .ok replacement := by
  constructor
  · rintro ⟨result, h⟩
    obtain ⟨id, hid, hreplacement⟩ := replacement_of_build h
    exact ⟨id, hid, _, hreplacement⟩
  · rintro ⟨id, hid, replacement, hreplacement⟩
    exact ⟨_, Outcome.bind_eq_ok_iff.mpr
      ⟨id, hid, Outcome.bind_eq_ok_iff.mpr ⟨replacement, hreplacement, rfl⟩⟩⟩

/-- Whether a talent builds does not depend on the order of its weights. -/
theorem Reordered.exists_build_iff (h : draft.Reordered draft') :
    (∃ result, draft.build key = .ok result) ↔ ∃ result, draft'.build key = .ok result := by
  obtain ⟨hreordered, hrest⟩ := h
  have hid : draft'.id = draft.id := by rw [hrest]
  rw [TalentDraft.exists_build_iff, TalentDraft.exists_build_iff, hid]
  refine exists_congr fun id => and_congr_right fun _ => ?_
  generalize draft.replacement = replacement at hreordered
  generalize draft'.replacement = replacement' at hreordered
  rcases hreordered with ⟨hreordered⟩ | _
  · simp only [mapM_some_eq_ok_iff, exists_comm, exists_and_left, exists_eq, and_true]
    exact hreordered.exists_build_iff
  · exact Iff.rfl

end TalentDraft
end LifeCourse
