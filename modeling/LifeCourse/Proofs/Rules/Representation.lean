import LifeCourse.Draft.Loading
import LifeCourse.Proofs.Draft.Weights
import LifeCourse.Proofs.Life.Happenings
import LifeCourse.Proofs.Life.Persistence
import LifeCourse.Proofs.Rules.Enumeration

/-!
# What every ruleset is like

Lives, judgements and reports rely on how rules are kept: entities stand under their ids, levels and
weights are sorted, the settings make sense.  Nobody checks this again, so it has to hold of every
ruleset that can come about (`Ruleset.Canonical`), whether it was read or laid over another one, and
however often.

## The list beside the tables

The achievements are considered in the order of a list that is kept beside the tables.  It is
collected when rules are read and when they are laid over others, and at no other time;
`Ruleset.Arises` says how rules and list come about together.  The list of rules that came about so
therefore fits their table (`Ruleset.Arises.collects`), and then it is the ascending ids, whatever
the order of the table was (`Table.Collects.eq_keys`).

## Bounds that must not cross

A change of age brings it between zero and the terminal age.  That makes no sense if the terminal age
lies below zero, and `Range.clamp?` says so.  No operation touches the terminal age of a person, so
it is that of the settings, and a change that insists on bounds that do not cross is the change of a
person (`Person.Reached.change?_eq`).
-/

namespace LifeCourse

/-! ## Tables -/

namespace Table

variable {κ α : Type} [LE κ] [LT κ] [DecidableLT κ] [Std.IsLinearOrder κ] [Std.LawfulOrderLT κ]

theorem mem_keys_iff {table : Table κ α} {k : κ} :
    k ∈ table.keys ↔ ∃ a, table.find? k = some a := by
  refine ⟨fun h => ?_, fun ⟨a, h⟩ => mem_keys_of_find? h⟩
  obtain ⟨entry, hentry, rfl⟩ := List.mem_map.mp h
  exact ⟨entry.2, find?_eq_some_iff.mpr hentry⟩

end Table

/-! ## How rules come about -/

namespace Ruleset

/-- The ruleset was read: from a JSON text, from a JSON value, or from a RON text. -/
inductive WasRead (rules : Ruleset) : Prop where
  | json (text : String) (h : ofJson text = .ok rules)
  | value (value : Document.Json) (h : ofValue value = .ok rules)
  | ron (text : String) (h : ofRon text = .ok rules)

/-- How a ruleset comes about together with the list of its achievements. -/
inductive Arises : Ruleset → List Int → Prop where
  | standard : Arises .standard []
  | read {rules : Ruleset} {order : List Int} (hread : rules.WasRead)
      (horder : rules.achievements.Collects order) : Arises rules order
  | merge {base overlay : Ruleset} {before beside order : List Int} (hbase : Arises base before)
      (hoverlay : Arises overlay beside)
      (horder : (base.merge overlay).achievements.Collects order) :
      Arises (base.merge overlay) order

theorem exists_build_of_ofDraft {read : Except Document.Defect Draft} {rules : Ruleset}
    (h : ofDraft read = .ok rules) : ∃ draft : Draft, draft.build = .ok rules := by
  unfold ofDraft at h
  split at h
  · cases h
  · rename_i draft
    split at h
    · cases h
    · rename_i built hbuild
      rw [Except.ok.inj h] at hbuild
      exact ⟨draft, hbuild⟩

theorem WasRead.loaded {rules : Ruleset} (h : rules.WasRead) : rules.Loaded := by
  obtain ⟨draft, hbuild⟩ : ∃ draft : Draft, draft.build = .ok rules := by
    cases h with
    | json text h => exact exists_build_of_ofDraft h
    | value value h => exact exists_build_of_ofDraft h
    | ron text h => exact exists_build_of_ofDraft h
  exact .build hbuild

theorem Arises.loaded {rules : Ruleset} {order : List Int} (h : rules.Arises order) :
    rules.Loaded := by
  induction h with
  | standard => exact .standard
  | read hread _ => exact hread.loaded
  | merge _ _ _ hbase hoverlay => exact hbase.merge hoverlay

/-- **The list was collected from the achievements as they are.** -/
theorem Arises.collects {rules : Ruleset} {order : List Int} (h : rules.Arises order) :
    rules.achievements.Collects order := by
  cases h with
  | standard => exact Table.collects_keys _
  | read _ horder => exact horder
  | merge _ _ horder => exact horder

end Ruleset

/-! ## What is sorted -/

/-- The weights of a replacement rule, by grade and by id, are ascending. -/
structure Replacement.Sorted (rule : Replacement) : Prop where
  grades : rule.grades.Pairwise fun a b => a.1 ≤ b.1
  talents : rule.talents.Pairwise fun a b => a.1 ≤ b.1

theorem pairwise_of_buildWeights {talent : Int} {part : ReplacementPart}
    {weights : List (String × Float)} {sorted : List (Int × Float)}
    (h : buildWeights talent part weights = .ok sorted) :
    sorted.Pairwise fun a b => a.1 ≤ b.1 := by
  obtain ⟨entries, -, rfl⟩ := buildWeights_eq_ok_iff.mp h
  exact (List.pairwise_mergeSort weightLe_trans weightLe_total entries).imp
    fun hle => of_decide_eq_true hle

theorem ReplacementDraft.sorted_of_build {talent : Int} {draft : ReplacementDraft}
    {rule : Replacement} (h : draft.build talent = .ok rule) : rule.Sorted := by
  obtain ⟨hgrades, htalents⟩ := ReplacementDraft.build_eq_ok_iff.mp h
  exact ⟨pairwise_of_buildWeights hgrades, pairwise_of_buildWeights htalents⟩

/-- **The replacement rule of a talent that was built is sorted.** -/
theorem TalentDraft.sorted_of_build (key : String) (draft : TalentDraft) (talent : Talent)
    (h : draft.build key = .ok talent) :
    ∀ rule, talent.replacement = some rule → rule.Sorted := by
  intro rule hrule
  obtain ⟨id, -, hreplacement⟩ := replacement_of_build h
  cases hdraft : draft.replacement with
  | none =>
    rw [hdraft, hrule] at hreplacement
    cases Except.ok.inj hreplacement
  | some weights =>
    rw [hdraft, hrule] at hreplacement
    obtain ⟨built, hbuilt, hsome⟩ := mapM_some_eq_ok_iff.mp hreplacement
    obtain rfl := Option.some.inj hsome
    exact ReplacementDraft.sorted_of_build hbuilt

/-- **Every rubric of loaded rules is sorted.** -/
theorem Ruleset.Loaded.pairwise_rubric {rules : Ruleset} (h : rules.Loaded) :
    ∀ key levels, rules.rubrics.find? key = some levels →
      levels.Pairwise fun a b => a.le b = true := by
  induction h with
  | standard =>
    intro key levels hfind
    cases hfind
  | @build draft rules h =>
    intro key levels hfind
    obtain ⟨-, -, -, -, -, hrubrics⟩ := Draft.build_eq_ok_iff.mp h
    rw [hrubrics, Draft.rubricTable, Table.find?_ofList] at hfind
    obtain ⟨entry, hentry, rfl⟩ := Option.map_eq_some_iff.mp hfind
    have hmem := List.mem_of_find?_eq_some hentry
    rw [List.mem_reverse, List.mem_map] at hmem
    obtain ⟨rubric, -, rfl⟩ := hmem
    exact sortLevels_pairwise _
  | merge _ _ ihbase ihoverlay =>
    intro key levels hfind
    rw [Ruleset.merge, Table.find?_merge] at hfind
    rcases Option.or_eq_some_iff.mp hfind with hfind | ⟨-, hfind⟩
    · exact ihoverlay key levels hfind
    · exact ihbase key levels hfind

/-! ## The invariant -/

/-- How rules are kept, with the list of their achievements beside them: they hang together, the list
is the ids of the achievements by ascending order, and what is asked in order is sorted. -/
structure Ruleset.Canonical (rules : Ruleset) (order : List Int) : Prop extends rules.Coherent where
  order_ascending : order.Pairwise (· < ·)
  mem_order_iff : ∀ id, id ∈ order ↔ ∃ achievement, rules.achievements.find? id = some achievement
  rubrics : ∀ key levels, rules.rubrics.find? key = some levels →
    levels.Pairwise fun a b => a.le b = true
  replacements : ∀ id talent rule, rules.talents.find? id = some talent →
    talent.replacement = some rule → rule.Sorted

/-- **However rules come about, they are canonical.** -/
theorem Ruleset.Arises.canonical {rules : Ruleset} {order : List Int} (h : rules.Arises order) :
    rules.Canonical order where
  toCoherent := h.loaded.coherent
  order_ascending := by
    rw [h.collects.eq_keys]
    exact rules.achievements.keys_ascending
  mem_order_iff := fun id => by rw [h.collects.eq_keys, Table.mem_keys_iff]
  rubrics := h.loaded.pairwise_rubric
  replacements := fun id talent rule hfind =>
    h.loaded.forall_talent TalentDraft.sorted_of_build id talent hfind rule

/-- In valid settings every scale is positive, also where a stat has one of its own. -/
theorem Settings.Valid.progressScaleFor_pos {settings : Settings} (h : settings.Valid)
    (code : String) : 0 < settings.progressScaleFor code := by
  unfold Settings.progressScaleFor
  cases hown : (settings.progressScales.find? code).filter fun scale => 0 < scale with
  | none => exact h.progressScale
  | some scale => exact of_decide_eq_true (Option.filter_eq_some_iff.mp hown).2

/-! ## Bounds -/

/-- A number brought between two bounds, if these do not cross. -/
def Range.clamp? (low high n : Int) : Option Int :=
  if low ≤ high then some (max low (min n high)) else none

namespace Person

/-- The person after a change of a stat, if age has bounds that do not cross. -/
def change? (person : Person) (stat : Stat) (amount : Int) : Option Person :=
  if amount = 0 then some person
  else
    let value := Range.saturate (person.current stat + amount)
    if stat = .age then (Range.clamp? 0 person.terminalAge value).map (person.set .age)
    else some (person.set stat value)

/-- A person with a terminal age may be changed in every way. -/
theorem change?_eq_some {person : Person} (h : 0 ≤ person.terminalAge) (stat : Stat)
    (amount : Int) : person.change? stat amount = some (person.change stat amount) := by
  unfold change? change
  split
  · rfl
  · unfold changed
    simp only
    split
    · rename_i hstat
      rw [Range.clamp?, if_pos h, hstat]
      rfl
    · rfl

/-- The persons that come about under some settings: the unborn one, and what operations make of
such persons before and after a life has begun. -/
inductive Reached (settings : Settings) : Person → Prop where
  | unborn : Reached settings (.unborn settings)
  | allocate {person : Person} (h : Reached settings person) (stat : Stat) (value : Int) :
      Reached settings (person.allocate stat value)
  | deed {person : Person} (h : Reached settings person) (deed : Deed) :
      Reached settings (deed.run person)

end Person

/-- No operation touches the terminal age. -/
theorem Deed.terminalAge_run (person : Person) (deed : Deed) :
    (deed.run person).terminalAge = person.terminalAge := by
  cases deed with
  | set stat value => rfl
  | change stat amount => exact (person.keeps_change stat amount).terminalAge
  | apply effect source => exact (person.keeps_applyIfAny (some effect) source).terminalAge
  | nextYear => rfl
  | addTalent id => rfl
  | recordEvent id => rfl
  | addAchievement id => rfl
  | setHistory groups =>
    rw [run, person.setHistory_eq]

namespace Person.Reached

variable {settings : Settings} {person : Person}

theorem terminalAge_eq (h : person.Reached settings) :
    person.terminalAge = settings.terminalAge := by
  induction h with
  | unborn => rfl
  | allocate _ stat value ih => exact ih
  | @deed person _ deed ih => exact (deed.terminalAge_run person).trans ih

/-- **The bounds of age never cross.** -/
theorem change?_eq (h : person.Reached settings) (hvalid : settings.Valid) (stat : Stat)
    (amount : Int) : person.change? stat amount = some (person.change stat amount) :=
  change?_eq_some (by rw [h.terminalAge_eq]; exact hvalid.terminalAge) stat amount

/-- An effect that may be missing is an operation, or none. -/
theorem applyIfAny (h : person.Reached settings) (effect : Option Effect) (source : Source) :
    (person.applyIfAny effect source).1.Reached settings := by
  cases effect with
  | none => exact h
  | some effect => exact h.deed (.apply effect source)

end Person.Reached

/-! ## The persons of a life -/

variable {rules : Ruleset}

theorem Request.reached_person (request : Request) (settings : Settings) :
    (request.person settings).Reached settings :=
  (request.allocate_preserves (fun _ stat _ entry _ h => h.allocate stat entry.2)
    Person.Reached.unborn).deed (.setHistory request.achieved)

theorem Person.Leads.reached {p q : Person} (h : Person.Leads rules p q) {settings : Settings}
    (hp : p.Reached settings) : q.Reached settings := by
  induction h with
  | refl => exact hp
  | tail _ hstep ih =>
    cases hstep with
    | join id => exact ih.deed (.addTalent _)
    | fire _ source => exact ih.applyIfAny _ _
    | happen _ source => exact (ih.deed (.recordEvent _)).applyIfAny _ _

theorem Standing.Step.reached {standing standing' : Standing}
    (h : Standing.Step rules standing standing') {settings : Settings}
    (hreached : standing.person.Reached settings) : standing'.person.Reached settings := by
  cases h with
  | turn => exact hreached.deed .nextYear
  | unlock => exact hreached.deed (.addTalent _)
  | fire => exact hreached.applyIfAny _ _
  | happen => exact (hreached.deed (.recordEvent _)).applyIfAny _ _
  | achieve => exact hreached.deed (.addAchievement _)

/-- **At every moment of a life the person came about by operations.** -/
theorem reached_of_live {request : Request} {source source' : Source} {life : Life}
    (h : live rules request source = (.ok life, source')) :
    ∀ moment ∈ life.moments rules request.achieved, moment.person.Reached rules.settings := by
  obtain ⟨source₁, hresolve, -⟩ := live_eq_ok h
  have hsettled : life.resolution.person.Reached rules.settings :=
    (leads_of_resolve hresolve).reached (request.reached_person rules.settings)
  exact (passage_of_live h).forall_of_step (fun hstep hage => hstep.reached hage) hsettled

/-- **What every ruleset is like.**  However a ruleset came about, it is canonical, and so is the list
of its achievements.  Every scale is therefore positive, and no change of any person that can come
about under it, in a life or outside of one, meets bounds that cross. -/
theorem representation_of_arises {order : List Int} (h : rules.Arises order) :
    rules.Canonical order ∧
    (∀ code, 0 < rules.settings.progressScaleFor code) ∧
    (∀ person : Person, person.Reached rules.settings → ∀ stat amount,
      person.change? stat amount = some (person.change stat amount)) ∧
    ∀ request source life source', live rules request source = (.ok life, source') →
      ∀ moment ∈ life.moments rules request.achieved, moment.person.Reached rules.settings := by
  have hvalid := h.canonical.settings
  exact ⟨h.canonical, hvalid.progressScaleFor_pos, fun _ hperson => hperson.change?_eq hvalid,
    fun _ _ _ _ => reached_of_live⟩

/-! ## Two values, one over the other -/

/-- A value with one achievement. -/
def achievementValue (key : String) : Document.Json :=
  .object [(some "achievements", .object [(some key, .object [(some "condition", .text "")])])]

/-- The ids are collected again when one ruleset is laid over the other, and the list is in order
although the later one has the smaller id. -/
theorem representation_of_arises_overlaid :
    ∃ base overlay : Ruleset, Ruleset.ofValue (achievementValue "7") = .ok base ∧
      Ruleset.ofValue (achievementValue "2") = .ok overlay ∧
      (base.merge overlay).Arises [2, 7] ∧ (base.merge overlay).Canonical [2, 7] ∧
      (Person.unborn (base.merge overlay).settings).change? .age (-5) =
        some ((Person.unborn (base.merge overlay).settings).change .age (-5)) := by
  have hread : ∃ base overlay : Ruleset, Ruleset.ofValue (achievementValue "7") = .ok base ∧
      Ruleset.ofValue (achievementValue "2") = .ok overlay ∧
      (base.merge overlay).achievements.keys = [2, 7] := ⟨_, _, rfl, rfl, rfl⟩
  obtain ⟨base, overlay, hbase, hoverlay, hkeys⟩ := hread
  have horder := (base.merge overlay).achievements.collects_keys
  rw [hkeys] at horder
  have harises : (base.merge overlay).Arises [2, 7] :=
    .merge (.read (.value _ hbase) (Table.collects_keys _))
      (.read (.value _ hoverlay) (Table.collects_keys _)) horder
  obtain ⟨hcanonical, -, hchange, -⟩ := representation_of_arises harises
  exact ⟨base, overlay, hbase, hoverlay, harises, hcanonical, hchange _ .unborn .age (-5)⟩

end LifeCourse
