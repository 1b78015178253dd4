import LifeCourse.Draft.Build
import LifeCourse.Proofs.Outcome

/-!
# What a draft that builds is built into

A draft that builds is taken apart here, once: its settings pass their check, each of its tables is
the table of what its entries build (`Draft.build_eq_ok_iff`), and every entry of a table builds
(`buildTable_eq_ok_iff`).

An entity that builds has the id that its key spells.  So a table is known by what its entries
build, whatever the order in which they were put there.
-/

namespace LifeCourse

/-- The id of an entity is the one that its key spells. -/
theorem entityId_eq_ok {kind : EntityKind} {key : String} {inner : Option Int} {id : Int}
    (h : entityId kind key inner = .ok id) : spacedWhole? key.toList = some id := by
  unfold entityId at h
  split at h
  · cases h
  · rename_i id' hkey
    rw [hkey]
    split at h
    · split at h
      · exact congrArg some (Except.ok.inj h)
      · cases h
    · exact congrArg some (Except.ok.inj h)

theorem TalentDraft.spelled_of_build (key : String) (draft : TalentDraft) (talent : Talent)
    (h : draft.build key = .ok talent) : spacedWhole? key.toList = some talent.id := by
  obtain ⟨id, hid, h⟩ := Outcome.bind_eq_ok_iff.mp h
  obtain ⟨replacement, -, h⟩ := Outcome.bind_eq_ok_iff.mp h
  obtain rfl := Except.ok.inj h
  exact entityId_eq_ok hid

theorem EventDraft.spelled_of_build (key : String) (draft : EventDraft) (event : Event)
    (h : draft.build key = .ok event) : spacedWhole? key.toList = some event.id := by
  obtain ⟨id, hid, h⟩ := Outcome.bind_eq_ok_iff.mp h
  obtain ⟨branches, -, h⟩ := Outcome.bind_eq_ok_iff.mp h
  obtain rfl := Except.ok.inj h
  exact entityId_eq_ok hid

theorem AgeDraft.spelled_of_build (key : String) (draft : AgeDraft) (slot : AgeSlot)
    (h : draft.build key = .ok slot) : spacedWhole? key.toList = some slot.age := by
  obtain ⟨age, hage, h⟩ := Outcome.bind_eq_ok_iff.mp h
  obtain ⟨pool, -, h⟩ := Outcome.bind_eq_ok_iff.mp h
  obtain rfl := Except.ok.inj h
  exact entityId_eq_ok hage

theorem AchievementDraft.spelled_of_build (key : String) (draft : AchievementDraft)
    (achievement : Achievement) (h : draft.build key = .ok achievement) :
    spacedWhole? key.toList = some achievement.id := by
  obtain ⟨id, hid, h⟩ := Outcome.bind_eq_ok_iff.mp h
  split at h
  · cases h
  · obtain rfl := Except.ok.inj h
    exact entityId_eq_ok hid

/-! ## Tables -/

section Table

variable {α β : Type} {build : String → α → Except Fault β} {id : β → Int}

/-- **A table is built from what its entries build.** -/
theorem buildTable_eq_ok_iff {drafts : List (String × α)} {table : Table Int β} :
    buildTable build id drafts = .ok table ↔
      ∃ entities, List.Forall₂ (fun draft entity => build draft.1 draft.2 = .ok entity)
          drafts entities ∧
        table = .ofList (entities.map fun entity => (id entity, entity)) := by
  constructor
  · intro h
    obtain ⟨entities, hentities, h⟩ := Outcome.bind_eq_ok_iff.mp h
    exact ⟨entities, Outcome.mapM_eq_ok_iff.mp hentities, (Except.ok.inj h).symm⟩
  · rintro ⟨entities, hentities, rfl⟩
    exact Outcome.bind_eq_ok_iff.mpr ⟨entities, Outcome.mapM_eq_ok_iff.mpr hentities, rfl⟩

end Table

/-! ## The whole -/

/-- The rubrics of a draft. -/
def Draft.rubricTable (draft : Draft) : Table String (List Level) :=
  .ofList <| draft.rubrics.map fun rubric => (rubric.1, sortLevels (rubric.2.map LevelDraft.build))

/-- **A draft builds if its settings pass their check and each of its tables builds.** -/
theorem Draft.build_eq_ok_iff {draft : Draft} {rules : Ruleset} :
    draft.build = .ok rules ↔
      (draft.settings.getD .standard).checked = .ok rules.settings ∧
      buildTable TalentDraft.build Talent.id draft.talents = .ok rules.talents ∧
      buildTable EventDraft.build Event.id draft.events = .ok rules.events ∧
      buildTable AgeDraft.build AgeSlot.age draft.ages = .ok rules.ages ∧
      buildTable AchievementDraft.build Achievement.id draft.achievements =
        .ok rules.achievements ∧
      rules.rubrics = draft.rubricTable := by
  constructor
  · intro h
    obtain ⟨settings, hsettings, h⟩ := Outcome.bind_eq_ok_iff.mp h
    obtain ⟨talents, htalents, h⟩ := Outcome.bind_eq_ok_iff.mp h
    obtain ⟨events, hevents, h⟩ := Outcome.bind_eq_ok_iff.mp h
    obtain ⟨ages, hages, h⟩ := Outcome.bind_eq_ok_iff.mp h
    obtain ⟨achievements, hachievements, h⟩ := Outcome.bind_eq_ok_iff.mp h
    obtain rfl := Except.ok.inj h
    exact ⟨hsettings, htalents, hevents, hages, hachievements, rfl⟩
  · rintro ⟨hsettings, htalents, hevents, hages, hachievements, hrubrics⟩
    refine Outcome.bind_eq_ok_iff.mpr ⟨_, hsettings, ?_⟩
    refine Outcome.bind_eq_ok_iff.mpr ⟨_, htalents, ?_⟩
    refine Outcome.bind_eq_ok_iff.mpr ⟨_, hevents, ?_⟩
    refine Outcome.bind_eq_ok_iff.mpr ⟨_, hages, ?_⟩
    refine Outcome.bind_eq_ok_iff.mpr ⟨_, hachievements, ?_⟩
    obtain ⟨talents, events, ages, achievements, rubrics, settings⟩ := rules
    obtain rfl := hrubrics
    rfl

/-- A draft of one rubric with one level builds. -/
theorem Draft.build_of_level (key : String) (level : LevelDraft) :
    Draft.build { rubrics := [(key, [level])] } =
      .ok { Ruleset.standard with rubrics := .ofList [(key, [level.build])] } := by
  refine Draft.build_eq_ok_iff.mpr ⟨rfl, rfl, rfl, rfl, rfl, ?_⟩
  have hsort : sortLevels [level.build] = [level.build] := List.mergeSort_singleton _
  show Table.ofList _ = Table.ofList [(key, sortLevels [level.build])]
  rw [hsort]

end LifeCourse
