import LifeCourse.Draft.Loading
import LifeCourse.Proofs.Draft.Building

/-!
# Loaded rulesets are coherent

Whatever was loaded and however overlays were laid over each other, the ruleset has settings that
make sense, and each entity stands in its table under its own id (`Ruleset.Loaded.coherent`).  A
life looks entities up by id and goes on with the entity, so the two must agree.
-/

namespace LifeCourse

namespace Table

variable {κ α : Type} [LE κ] [LT κ] [DecidableLT κ] [Std.IsLinearOrder κ] [Std.LawfulOrderLT κ]

/-- Every value stands under its own key. -/
def Keyed (key : α → κ) (table : Table κ α) : Prop :=
  ∀ k a, table.find? k = some a → key a = k

variable {key : α → κ}

omit [LE κ] [Std.IsLinearOrder κ] [Std.LawfulOrderLT κ] in
theorem keyed_empty (key : α → κ) : (empty : Table κ α).Keyed key := by
  intro k a h
  rw [find?_empty] at h
  cases h

/-- The values by ascending key are the values by ascending key of their own. -/
theorem Keyed.map_values {table : Table κ α} (h : table.Keyed key) :
    table.values.map key = table.keys := by
  unfold values keys
  rw [List.map_map]
  exact List.map_congr_left fun entry hentry => h entry.1 entry.2 (find?_eq_some_iff.mpr hentry)

theorem mem_values_iff {table : Table κ α} {a : α} :
    a ∈ table.values ↔ ∃ k, table.find? k = some a := by
  unfold values
  rw [List.mem_map]
  constructor
  · rintro ⟨entry, hentry, rfl⟩
    exact ⟨entry.1, find?_eq_some_iff.mpr hentry⟩
  · rintro ⟨k, h⟩
    exact ⟨(k, a), find?_eq_some_iff.mp h, rfl⟩

omit [DecidableLT κ] [Std.IsLinearOrder κ] in
/-- No key stands twice. -/
theorem nodup_keys (table : Table κ α) : table.keys.Nodup := by
  refine table.keys_ascending.imp fun hlt heq => ?_
  rw [heq] at hlt
  exact Std.lt_irrefl hlt

theorem mem_keys_of_find? {table : Table κ α} {k : κ} {a : α} (h : table.find? k = some a) :
    k ∈ table.keys :=
  List.mem_map.mpr ⟨(k, a), find?_eq_some_iff.mp h, rfl⟩

/-- A value is found under its key. -/
theorem Keyed.find?_of_mem_values {table : Table κ α} (h : table.Keyed key) {a : α}
    (ha : a ∈ table.values) : table.find? (key a) = some a := by
  obtain ⟨k, ha⟩ := mem_values_iff.mp ha
  rwa [h k a ha]

/-- Values with one key are one value. -/
theorem Keyed.eq_of_mem_values {table : Table κ α} (h : table.Keyed key) {a b : α}
    (ha : a ∈ table.values) (hb : b ∈ table.values) (heq : key a = key b) : a = b := by
  have hfound := h.find?_of_mem_values ha
  rw [heq, h.find?_of_mem_values hb] at hfound
  exact (Option.some.inj hfound).symm

variable [DecidableEq κ]

/-- What is found in a table of values under their keys. -/
theorem of_find?_ofList {values : List α} {k : κ} {a : α}
    (h : (ofList (values.map fun a => (key a, a))).find? k = some a) : a ∈ values ∧ key a = k := by
  rw [find?_ofList] at h
  obtain ⟨entry, hentry, rfl⟩ := Option.map_eq_some_iff.mp h
  have hk : entry.1 = k := by simpa using List.find?_some hentry
  have hmem := List.mem_of_find?_eq_some hentry
  rw [List.mem_reverse, List.mem_map] at hmem
  obtain ⟨a, ha, rfl⟩ := hmem
  exact ⟨ha, hk⟩

/-- A table of values under their keys. -/
theorem keyed_ofList (key : α → κ) (values : List α) :
    (ofList (values.map fun a => (key a, a))).Keyed key := fun _ _ h =>
  (of_find?_ofList h).2

theorem Keyed.merge {base overlay : Table κ α} (hbase : base.Keyed key)
    (hoverlay : overlay.Keyed key) : (base.merge overlay).Keyed key := by
  intro k a h
  rw [find?_merge] at h
  rcases Option.or_eq_some_iff.mp h with h | ⟨-, h⟩
  · exact hoverlay k a h
  · exact hbase k a h

end Table

theorem keyed_of_buildTable {α β : Type} {build : String → α → Except Fault β} {id : β → Int}
    {drafts : List (String × α)} {table : Table Int β}
    (h : buildTable build id drafts = .ok table) : table.Keyed id := by
  obtain ⟨entities, -, rfl⟩ := buildTable_eq_ok_iff.mp h
  exact Table.keyed_ofList id entities

namespace Ruleset

/-- Rules that hang together: the settings make sense, and entities stand under their ids. -/
structure Coherent (rules : Ruleset) : Prop where
  settings : rules.settings.Valid
  talents : rules.talents.Keyed Talent.id
  events : rules.events.Keyed Event.id
  ages : rules.ages.Keyed AgeSlot.age
  achievements : rules.achievements.Keyed Achievement.id

theorem coherent_standard : standard.Coherent where
  settings := Settings.valid_standard
  talents := Table.keyed_empty _
  events := Table.keyed_empty _
  ages := Table.keyed_empty _
  achievements := Table.keyed_empty _

theorem coherent_of_build {draft : Draft} {rules : Ruleset} (h : draft.build = .ok rules) :
    rules.Coherent := by
  obtain ⟨hsettings, htalents, hevents, hages, hachievements, -⟩ := Draft.build_eq_ok_iff.mp h
  obtain ⟨hvalid, hsettings⟩ := Settings.checked_eq_ok_iff.mp hsettings
  rw [← hsettings] at hvalid
  exact
    { settings := hvalid
      talents := keyed_of_buildTable htalents
      events := keyed_of_buildTable hevents
      ages := keyed_of_buildTable hages
      achievements := keyed_of_buildTable hachievements }

theorem Coherent.merge {base overlay : Ruleset} (hbase : base.Coherent)
    (hoverlay : overlay.Coherent) : (base.merge overlay).Coherent where
  settings := hbase.settings
  talents := hbase.talents.merge hoverlay.talents
  events := hbase.events.merge hoverlay.events
  ages := hbase.ages.merge hoverlay.ages
  achievements := hbase.achievements.merge hoverlay.achievements

/-- **Loaded rules hang together.** -/
theorem Loaded.coherent {rules : Ruleset} (h : rules.Loaded) : rules.Coherent := by
  induction h with
  | standard => exact coherent_standard
  | build h => exact coherent_of_build h
  | merge _ _ hbase hoverlay => exact hbase.merge hoverlay

/-- **Every talent of loaded rules was built from a draft.**  So what is true of whatever a draft
builds is true of it. -/
theorem Loaded.forall_talent {P : Talent → Prop}
    (hbuild : ∀ (key : String) (draft : TalentDraft) (talent : Talent),
      draft.build key = .ok talent → P talent)
    {rules : Ruleset} (h : rules.Loaded) :
    ∀ id talent, rules.talents.find? id = some talent → P talent := by
  induction h with
  | standard =>
    intro id talent hfind
    cases hfind
  | @build draft rules h =>
    intro id talent hfind
    obtain ⟨-, htalents, -⟩ := Draft.build_eq_ok_iff.mp h
    obtain ⟨talents, hbuilt, htable⟩ := buildTable_eq_ok_iff.mp htalents
    rw [htable] at hfind
    obtain ⟨hmem, -⟩ := Table.of_find?_ofList hfind
    obtain ⟨entry, -, htalent⟩ := Outcome.exists_of_mem_right hbuilt talent hmem
    exact hbuild entry.1 entry.2 talent htalent
  | merge _ _ ihbase ihoverlay =>
    intro id talent hfind
    rw [Ruleset.merge, Table.find?_merge] at hfind
    rcases Option.or_eq_some_iff.mp hfind with hfind | ⟨-, hfind⟩
    · exact ihoverlay id talent hfind
    · exact ihbase id talent hfind

end Ruleset
end LifeCourse
