import LifeCourse.Proofs.Draft.Weights
import LifeCourse.Proofs.Rules.Coherence
import Mathlib.Data.List.Nodup

/-!
# Drafts in another order

A document lists the entries of a table in some order, and who reads it into a hash table meets
them in any other one.  Whether a draft builds does not depend on that order.  What it builds does:
keys are texts, ids are numbers, and of two keys that spell one id the later entry counts.

`Draft.build_eq_of_reordered_iff` says exactly when the order does not matter: entries whose keys
spell one id build the same entity, and weights whose keys spell one number are equal
(`Draft.Unambiguous`).  Distinct keys do not suffice (`Draft.exists_build_ne_of_reordered`).
-/

namespace LifeCourse

/-! ## Tables of agreeing entries -/

namespace Table

variable {κ α : Type} [LE κ] [LT κ] [DecidableLT κ] [Std.IsLinearOrder κ] [Std.LawfulOrderLT κ]
  [DecidableEq κ]

/-- If the entries of one key agree, each of them is the answer. -/
theorem find?_ofList_eq_some_iff {entries : List (κ × α)}
    (hagree : ∀ x ∈ entries, ∀ y ∈ entries, x.1 = y.1 → x.2 = y.2) {k : κ} {a : α} :
    (ofList entries).find? k = some a ↔ (k, a) ∈ entries := by
  rw [find?_ofList]
  constructor
  · intro h
    obtain ⟨⟨k', a'⟩, hfound, rfl⟩ := Option.map_eq_some_iff.mp h
    have hk : k' = k := by simpa using List.find?_some hfound
    rw [← hk]
    exact List.mem_reverse.mp (List.mem_of_find?_eq_some hfound)
  · intro hmem
    cases hfound : entries.reverse.find? fun e => e.1 = k with
    | none =>
      have hnot := List.find?_eq_none.mp hfound (k, a) (List.mem_reverse.mpr hmem)
      simp at hnot
    | some entry =>
      have hk : entry.1 = k := by simpa using List.find?_some hfound
      have hentry := List.mem_reverse.mp (List.mem_of_find?_eq_some hfound)
      exact congrArg some (hagree entry hentry (k, a) hmem hk)

/-- The order of agreeing entries does not matter. -/
theorem ofList_eq_of_perm {entries entries' : List (κ × α)} (hperm : entries.Perm entries')
    (hagree : ∀ x ∈ entries, ∀ y ∈ entries, x.1 = y.1 → x.2 = y.2) :
    ofList entries = ofList entries' := by
  have hagree' : ∀ x ∈ entries', ∀ y ∈ entries', x.1 = y.1 → x.2 = y.2 := fun x hx y hy =>
    hagree x (hperm.symm.subset hx) y (hperm.symm.subset hy)
  refine ext_find? fun k => Option.ext fun a => ?_
  rw [find?_ofList_eq_some_iff hagree, find?_ofList_eq_some_iff hagree', hperm.mem_iff]

end Table

/-! ## The entries of a table -/

/-- The same entries in some order, each of them as `R` allows. -/
def Rearranged {α : Type} (R : α → α → Prop) (drafts drafts' : List (String × α)) : Prop :=
  ∃ middle, drafts.Perm middle ∧ List.Forall₂ (fun a b => a.1 = b.1 ∧ R a.2 b.2) middle drafts'

/-- Entries whose keys spell one id build the same. -/
def EntriesAgree {α β : Type} (build : String → α → Except Fault β)
    (drafts : List (String × α)) : Prop :=
  ∀ a ∈ drafts, ∀ b ∈ drafts, spacedWhole? a.1.toList = spacedWhole? b.1.toList →
    build a.1 a.2 = build b.1 b.2

/-- Keys that spell distinct ids leave no choice. -/
theorem entriesAgree_of_nodup {α β : Type} (build : String → α → Except Fault β)
    {drafts : List (String × α)}
    (h : (drafts.map fun draft => spacedWhole? draft.1.toList).Nodup) :
    EntriesAgree build drafts := by
  intro a ha b hb hsame
  rw [List.inj_on_of_nodup_map h ha hb hsame]

section Entries

variable {α β : Type} {build : String → α → Except Fault β} {id : β → Int} {R : α → α → Prop}
  {drafts drafts' : List (String × α)} {table : Table Int β}

theorem rearranged_eq_iff : Rearranged Eq drafts drafts' ↔ drafts.Perm drafts' := by
  have hpairs : (fun a b : String × α => a.1 = b.1 ∧ a.2 = b.2) = Eq := by
    funext a b
    exact propext Prod.ext_iff.symm
  unfold Rearranged
  rw [hpairs, List.forall₂_eq_eq_eq]
  exact exists_eq_right

/-- A table builds if each of its entries does. -/
theorem exists_buildTable_iff :
    (∃ table, buildTable build id drafts = .ok table) ↔
      ∀ draft ∈ drafts, ∃ entity, build draft.1 draft.2 = .ok entity := by
  rw [← Outcome.exists_mapM_eq_ok_iff]
  constructor
  · rintro ⟨table, h⟩
    obtain ⟨entities, hentities, -⟩ := buildTable_eq_ok_iff.mp h
    exact ⟨entities, Outcome.mapM_eq_ok_iff.mpr hentities⟩
  · rintro ⟨entities, h⟩
    exact ⟨_, buildTable_eq_ok_iff.mpr ⟨entities, Outcome.mapM_eq_ok_iff.mp h, rfl⟩⟩

/-- **Whether a table builds does not depend on the order.** -/
theorem Rearranged.exists_buildTable_iff
    (hR : ∀ key a a', R a a' →
      ((∃ entity, build key a = .ok entity) ↔ ∃ entity, build key a' = .ok entity))
    (h : Rearranged R drafts drafts') :
    (∃ table, buildTable build id drafts = .ok table) ↔
      ∃ table, buildTable build id drafts' = .ok table := by
  rw [LifeCourse.exists_buildTable_iff, LifeCourse.exists_buildTable_iff]
  obtain ⟨middle, hperm, hbeside⟩ := h
  have hstep : ∀ draft draft' : String × α, draft.1 = draft'.1 ∧ R draft.2 draft'.2 →
      ((∃ entity, build draft.1 draft.2 = .ok entity) ↔
        ∃ entity, build draft'.1 draft'.2 = .ok entity) := by
    rintro ⟨key, a⟩ ⟨_, a'⟩ ⟨rfl, h⟩
    exact hR key a a' h
  constructor
  · intro hall draft' hmem'
    obtain ⟨draft, hmem, h⟩ := Outcome.exists_of_mem_right hbeside draft' hmem'
    exact (hstep draft draft' h).mp (hall draft (hperm.symm.subset hmem))
  · intro hall draft hmem
    obtain ⟨draft', hmem', h⟩ := Outcome.exists_of_mem_left hbeside draft (hperm.subset hmem)
    exact (hstep draft draft' h).mpr (hall draft' hmem')

theorem exists_buildTable_iff_of_perm (h : drafts.Perm drafts') :
    (∃ table, buildTable build id drafts = .ok table) ↔
      ∃ table, buildTable build id drafts' = .ok table := by
  refine (rearranged_eq_iff.mpr h).exists_buildTable_iff ?_
  rintro key a _ rfl
  exact Iff.rfl

/-- The last entry of a table counts. -/
theorem find?_of_buildTable_concat {key : String} {a : α}
    (h : buildTable build id (drafts ++ [(key, a)]) = .ok table) :
    ∃ entity, build key a = .ok entity ∧ table.find? (id entity) = some entity := by
  obtain ⟨entities, hentities, rfl⟩ := buildTable_eq_ok_iff.mp h
  have hreverse := List.forall₂_reverse_iff.mpr hentities
  rw [List.reverse_append, List.reverse_singleton, List.singleton_append] at hreverse
  obtain ⟨entity, rest, hbuild, -, hrest⟩ := List.forall₂_cons_left_iff.mp hreverse
  refine ⟨entity, hbuild, ?_⟩
  rw [Table.find?_ofList, ← List.map_reverse, hrest]
  simp

variable (hid : ∀ key a entity, build key a = .ok entity →
  spacedWhole? key.toList = some (id entity))

include hid

/-- What is rearranged builds the same entities in another order, if entries do not depend on how
`R` changes them. -/
theorem Rearranged.buildTable (hagree : EntriesAgree build drafts)
    (hR : ∀ a ∈ drafts, ∀ a', R a.2 a' → build a.1 a' = build a.1 a.2)
    (h : buildTable build id drafts = .ok table) (hrearranged : Rearranged R drafts drafts') :
    buildTable build id drafts' = .ok table := by
  obtain ⟨entities, hentities, rfl⟩ := buildTable_eq_ok_iff.mp h
  obtain ⟨middle, hperm, hbeside⟩ := hrearranged
  obtain ⟨entities', hentities', hperm'⟩ := List.perm_comp_forall₂ hperm.symm hentities
  refine buildTable_eq_ok_iff.mpr ⟨entities', ?_, ?_⟩
  · have hmiddle : ∀ a ∈ middle, ∀ a', R a.2 a' → build a.1 a' = build a.1 a.2 :=
      fun a ha => hR a (hperm.symm.subset ha)
    clear hperm hperm'
    induction hbeside generalizing entities' with
    | nil =>
      cases hentities'
      exact .nil
    | @cons a b middle drafts' hhead _ ih =>
      obtain ⟨hkey, hR'⟩ := hhead
      obtain ⟨hhead, htail⟩ := List.forall_mem_cons.mp hmiddle
      cases hentities' with
      | cons hbuild hrest =>
        refine .cons ?_ (ih _ hrest htail)
        rw [← hkey, hhead b.2 hR']
        exact hbuild
  · refine Table.ofList_eq_of_perm (hperm'.symm.map _) fun x hx y hy hsame => ?_
    obtain ⟨entity, hentity, rfl⟩ := List.mem_map.mp hx
    obtain ⟨entity', hentity', rfl⟩ := List.mem_map.mp hy
    obtain ⟨a, ha, hbuild⟩ := Outcome.exists_of_mem_right hentities entity hentity
    obtain ⟨b, hb, hbuild'⟩ := Outcome.exists_of_mem_right hentities entity' hentity'
    have hspelled : spacedWhole? a.1.toList = spacedWhole? b.1.toList := by
      rw [hid _ _ _ hbuild, hid _ _ _ hbuild']
      exact congrArg some hsame
    have hboth := hagree a ha b hb hspelled
    rw [hbuild, hbuild'] at hboth
    exact Except.ok.inj hboth

/-- **When the order of a table does not matter.** -/
theorem buildTable_rearranged_iff (hrefl : ∀ a, R a a)
    (h : buildTable build id drafts = .ok table) :
    (∀ drafts', Rearranged R drafts drafts' → buildTable build id drafts' = .ok table) ↔
      EntriesAgree build drafts ∧
        ∀ a ∈ drafts, ∀ a', R a.2 a' → build a.1 a' = build a.1 a.2 := by
  refine ⟨fun hall => ?_, fun ⟨hagree, hR⟩ drafts' hrearranged =>
    hrearranged.buildTable hid hagree hR h⟩
  -- Each entry, changed as `R` allows, may be the last one, which counts.
  have hlast : ∀ a ∈ drafts, ∀ a', R a.2 a' →
      ∃ entity, build a.1 a' = .ok entity ∧ table.find? (id entity) = some entity := by
    intro a ha a' hR
    obtain ⟨front, back, rfl⟩ := List.append_of_mem ha
    have hrearranged : Rearranged R (front ++ a :: back) (front ++ back ++ [(a.1, a')]) := by
      refine ⟨front ++ back ++ [a], ?_, ?_⟩
      · exact List.perm_middle.trans (List.perm_append_singleton a _).symm
      · refine List.rel_append (List.forall₂_same.mpr fun b _ => ⟨rfl, hrefl b.2⟩) ?_
        exact .cons ⟨rfl, hR⟩ .nil
    exact find?_of_buildTable_concat (hall _ hrearranged)
  have hsame : ∀ a ∈ drafts, ∀ a', R a.2 a' → ∀ b ∈ drafts, ∀ b', R b.2 b' →
      spacedWhole? a.1.toList = spacedWhole? b.1.toList → build a.1 a' = build b.1 b' := by
    intro a ha a' hRa b hb b' hRb hspelled
    obtain ⟨entity, hbuild, hfound⟩ := hlast a ha a' hRa
    obtain ⟨entity', hbuild', hfound'⟩ := hlast b hb b' hRb
    rw [hid _ _ _ hbuild, hid _ _ _ hbuild', Option.some.injEq] at hspelled
    rw [hspelled, hfound', Option.some.injEq] at hfound
    rw [hbuild, hbuild', hfound]
  exact ⟨fun a ha b hb => hsame a ha a.2 (hrefl _) b hb b.2 (hrefl _),
    fun a ha a' hR => hsame a ha a' hR a ha a.2 (hrefl _) rfl⟩

theorem buildTable_perm_iff (h : buildTable build id drafts = .ok table) :
    (∀ drafts', drafts.Perm drafts' → buildTable build id drafts' = .ok table) ↔
      EntriesAgree build drafts := by
  have hiff := buildTable_rearranged_iff (R := Eq) hid (fun _ => rfl) h
  simp only [rearranged_eq_iff] at hiff
  rw [hiff]
  refine and_iff_left ?_
  rintro entry - _ rfl
  rfl

end Entries

/-- The same for talents, whose weights may be reordered as well. -/
theorem buildTable_talents_iff {drafts : List (String × TalentDraft)} {table : Table Int Talent}
    (h : buildTable TalentDraft.build Talent.id drafts = .ok table) :
    (∀ drafts', Rearranged TalentDraft.Reordered drafts drafts' →
        buildTable TalentDraft.build Talent.id drafts' = .ok table) ↔
      EntriesAgree TalentDraft.build drafts ∧
        ∀ entry ∈ drafts, ∀ rule ∈ entry.2.replacement, rule.Agrees := by
  rw [buildTable_rearranged_iff TalentDraft.spelled_of_build TalentDraft.reordered_refl h]
  refine and_congr_right fun _ => forall_congr' fun entry => forall_congr' fun hmem => ?_
  obtain ⟨talent, hbuild⟩ := exists_buildTable_iff.mp ⟨table, h⟩ entry hmem
  rw [← TalentDraft.build_reordered_iff hbuild, hbuild]

/-! ## The whole draft -/

namespace Draft

/-- The same draft with its tables, and the weights of its talents, in some order. -/
structure Reordered (draft draft' : Draft) : Prop where
  talents : Rearranged TalentDraft.Reordered draft.talents draft'.talents
  events : draft.events.Perm draft'.events
  ages : draft.ages.Perm draft'.ages
  achievements : draft.achievements.Perm draft'.achievements
  rubrics : draft.rubrics.Perm draft'.rubrics
  settings : draft'.settings = draft.settings

/-- In no table does a key stand twice. -/
structure DistinctKeys (draft : Draft) : Prop where
  talents : (draft.talents.map Prod.fst).Nodup
  weights : ∀ entry ∈ draft.talents, ∀ rule ∈ entry.2.replacement,
    (rule.grades.map Prod.fst).Nodup ∧ (rule.talents.map Prod.fst).Nodup
  events : (draft.events.map Prod.fst).Nodup
  ages : (draft.ages.map Prod.fst).Nodup
  achievements : (draft.achievements.map Prod.fst).Nodup
  rubrics : (draft.rubrics.map Prod.fst).Nodup

/-- Where two keys spell one number, it makes no difference which of them counts. -/
structure Unambiguous (draft : Draft) : Prop where
  talents : EntriesAgree TalentDraft.build draft.talents
  weights : ∀ entry ∈ draft.talents, ∀ rule ∈ entry.2.replacement, rule.Agrees
  events : EntriesAgree EventDraft.build draft.events
  ages : EntriesAgree AgeDraft.build draft.ages
  achievements : EntriesAgree AchievementDraft.build draft.achievements

variable {draft draft' : Draft} {rules : Ruleset}

theorem reordered_refl (draft : Draft) : draft.Reordered draft where
  talents := ⟨draft.talents, .refl _,
    List.forall₂_same.mpr fun entry _ => ⟨rfl, TalentDraft.reordered_refl entry.2⟩⟩
  events := .refl _
  ages := .refl _
  achievements := .refl _
  rubrics := .refl _
  settings := rfl

/-! ### Whether a draft builds -/

theorem exists_build_iff :
    (∃ rules, draft.build = .ok rules) ↔
      (∃ settings, (draft.settings.getD .standard).checked = .ok settings) ∧
      (∃ table, buildTable TalentDraft.build Talent.id draft.talents = .ok table) ∧
      (∃ table, buildTable EventDraft.build Event.id draft.events = .ok table) ∧
      (∃ table, buildTable AgeDraft.build AgeSlot.age draft.ages = .ok table) ∧
      ∃ table, buildTable AchievementDraft.build Achievement.id draft.achievements =
        .ok table := by
  constructor
  · rintro ⟨rules, h⟩
    obtain ⟨hsettings, htalents, hevents, hages, hachievements, -⟩ := build_eq_ok_iff.mp h
    exact ⟨⟨_, hsettings⟩, ⟨_, htalents⟩, ⟨_, hevents⟩, ⟨_, hages⟩, ⟨_, hachievements⟩⟩
  · rintro ⟨⟨settings, hsettings⟩, ⟨talents, htalents⟩, ⟨events, hevents⟩, ⟨ages, hages⟩,
      ⟨achievements, hachievements⟩⟩
    exact ⟨⟨talents, events, ages, achievements, draft.rubricTable, settings⟩,
      build_eq_ok_iff.mpr ⟨hsettings, htalents, hevents, hages, hachievements, rfl⟩⟩

/-- Whether a draft builds does not depend on the order. -/
theorem Reordered.exists_build_iff (h : draft.Reordered draft') :
    (∃ rules, draft.build = .ok rules) ↔ ∃ rules, draft'.build = .ok rules := by
  have htalents : (∃ table, buildTable TalentDraft.build Talent.id draft.talents = .ok table) ↔
      ∃ table, buildTable TalentDraft.build Talent.id draft'.talents = .ok table :=
    h.talents.exists_buildTable_iff fun _ _ _ hR => hR.exists_build_iff
  rw [Draft.exists_build_iff, Draft.exists_build_iff, h.settings, htalents,
    exists_buildTable_iff_of_perm h.events, exists_buildTable_iff_of_perm h.ages,
    exists_buildTable_iff_of_perm h.achievements]

/-! ### What a draft builds -/

theorem rubricTable_eq_of_perm (hkeys : draft.DistinctKeys)
    (h : draft.rubrics.Perm draft'.rubrics) : draft'.rubricTable = draft.rubricTable := by
  refine (Table.ofList_eq_of_perm (h.map _) fun x hx y hy hsame => ?_).symm
  obtain ⟨rubric, hrubric, rfl⟩ := List.mem_map.mp hx
  obtain ⟨rubric', hrubric', rfl⟩ := List.mem_map.mp hy
  rw [List.inj_on_of_nodup_map hkeys.rubrics hrubric hrubric' hsame]

/-- **When the order of a draft does not matter.**  Whatever the order, the draft builds or does
not.  If it builds, it builds the same rules in every order exactly if entries whose keys spell one
number agree. -/
theorem build_eq_of_reordered_iff (draft : Draft) (hkeys : draft.DistinctKeys) :
    (∀ draft', draft.Reordered draft' →
      ((∃ rules, draft.build = .ok rules) ↔ ∃ rules, draft'.build = .ok rules)) ∧
    ∀ rules, draft.build = .ok rules →
      ((∀ draft', draft.Reordered draft' → draft'.build = .ok rules) ↔ draft.Unambiguous) := by
  refine ⟨fun draft' h => h.exists_build_iff, fun rules h => ?_⟩
  obtain ⟨hsettings, htalents, hevents, hages, hachievements, hrubrics⟩ := build_eq_ok_iff.mp h
  have hsame := reordered_refl draft
  constructor
  · intro hall
    obtain ⟨hagree, hweights⟩ := (buildTable_talents_iff htalents).mp fun talents hR =>
      (build_eq_ok_iff.mp (hall { draft with talents := talents }
        { hsame with talents := hR })).2.1
    refine ⟨hagree, hweights, ?_, ?_, ?_⟩
    · refine (buildTable_perm_iff EventDraft.spelled_of_build hevents).mp fun events hperm => ?_
      have hbuild := hall { draft with events := events } { hsame with events := hperm }
      exact (build_eq_ok_iff.mp hbuild).2.2.1
    · refine (buildTable_perm_iff AgeDraft.spelled_of_build hages).mp fun ages hperm => ?_
      have hbuild := hall { draft with ages := ages } { hsame with ages := hperm }
      exact (build_eq_ok_iff.mp hbuild).2.2.2.1
    · refine (buildTable_perm_iff AchievementDraft.spelled_of_build hachievements).mp
        fun achievements hperm => ?_
      have hbuild := hall { draft with achievements := achievements }
        { hsame with achievements := hperm }
      exact (build_eq_ok_iff.mp hbuild).2.2.2.2.1
  · intro hun draft' hR
    refine build_eq_ok_iff.mpr ⟨?_, ?_, ?_, ?_, ?_, ?_⟩
    · rw [hR.settings, hsettings]
    · exact (buildTable_talents_iff htalents).mpr ⟨hun.talents, hun.weights⟩ _ hR.talents
    · exact (buildTable_perm_iff EventDraft.spelled_of_build hevents).mpr hun.events _ hR.events
    · exact (buildTable_perm_iff AgeDraft.spelled_of_build hages).mpr hun.ages _ hR.ages
    · exact (buildTable_perm_iff AchievementDraft.spelled_of_build hachievements).mpr
        hun.achievements _ hR.achievements
    · rw [hrubrics, rubricTable_eq_of_perm hkeys hR.rubrics]

/-! ### Talents with names -/

/-- A draft of talents, each with a key and a name. -/
def ofNames (entries : List (String × String)) : Draft where
  talents := entries.map fun entry => (entry.1, { name := some entry.2 })

variable {entries entries' : List (String × String)}

theorem distinctKeys_ofNames (h : (entries.map Prod.fst).Nodup) :
    (ofNames entries).DistinctKeys where
  talents := by
    show ((entries.map _).map Prod.fst).Nodup
    rw [List.map_map]
    exact h
  weights := by
    intro entry hmem rule hrule
    obtain ⟨_, _, rfl⟩ := List.mem_map.mp hmem
    cases hrule
  events := List.nodup_nil
  ages := List.nodup_nil
  achievements := List.nodup_nil
  rubrics := List.nodup_nil

theorem reordered_ofNames (h : entries.Perm entries') :
    (ofNames entries).Reordered (ofNames entries') :=
  { reordered_refl (ofNames entries) with
    talents := ⟨(ofNames entries').talents, h.map _,
      List.forall₂_same.mpr fun entry _ => ⟨rfl, TalentDraft.reordered_refl entry.2⟩⟩ }

/-- Keys that spell two ids: the order does not matter. -/
theorem build_eq_of_reordered_two :
    ∃ rules, (ofNames [("1", "A"), ("2", "B")]).build = .ok rules ∧
      ∀ draft', (ofNames [("1", "A"), ("2", "B")]).Reordered draft' →
        draft'.build = .ok rules := by
  have hkeys : (ofNames [("1", "A"), ("2", "B")]).DistinctKeys :=
    distinctKeys_ofNames (by decide)
  have hbuild : ∃ rules, (ofNames [("1", "A"), ("2", "B")]).build = .ok rules := ⟨_, rfl⟩
  obtain ⟨rules, hbuild⟩ := hbuild
  have hunambiguous : (ofNames [("1", "A"), ("2", "B")]).Unambiguous := by
    refine ⟨entriesAgree_of_nodup _ (by decide), ?_, ?_, ?_, ?_⟩
    · intro entry hmem rule hrule
      obtain ⟨_, _, rfl⟩ := List.mem_map.mp hmem
      cases hrule
    · exact entriesAgree_of_nodup _ List.nodup_nil
    · exact entriesAgree_of_nodup _ List.nodup_nil
    · exact entriesAgree_of_nodup _ List.nodup_nil
  exact ⟨rules, hbuild, ((build_eq_of_reordered_iff _ hkeys).2 rules hbuild).mpr hunambiguous⟩

/-- **Distinct keys do not suffice.**  The keys `1` and `01` spell one id, and of the two talents
the later one counts. -/
theorem exists_build_ne_of_reordered :
    ∃ (draft draft' : Draft) (rules rules' : Ruleset), draft.DistinctKeys ∧
      draft.Reordered draft' ∧ draft.build = .ok rules ∧ draft'.build = .ok rules' ∧
      rules ≠ rules' := by
  refine ⟨ofNames [("1", "A"), ("01", "B")], ofNames [("01", "B"), ("1", "A")], _, _,
    distinctKeys_ofNames (by decide), reordered_ofNames (.swap _ _ _), rfl, rfl, fun heq => ?_⟩
  have hnames := congrArg (fun rules => (rules.talents.find? 1).map Talent.name) heq
  exact absurd hnames (by decide)

end Draft
end LifeCourse
