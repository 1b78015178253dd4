import LifeCourse.Lint.Command
import LifeCourse.Proofs.Condition.Grammar
import LifeCourse.Proofs.Rules.Coherence
import Mathlib.Data.List.Nodup

/-!
# The verdict on rules

The command succeeds if there is nothing to check, or else if every file holds rules and every
condition of the rules that they make together can be read (`verdict`).  Each condition that cannot
is one error of the report, and the two numbers at the end of the report add up to what is listed.

## Places

Two entities may pose the same condition, and one event may pose it twice.  So errors are counted by
place (`Place`): a condition stands in a talent, in front of an event on either side, in one of the
branches of an event or in an achievement.  `Ruleset.condition?` looks a place up, by id and by
number, and says nothing about the order of a report.  The report goes through the same conditions
table by table (`occurrences`), and meets every place that has a condition once
(`mem_occurrences_iff`, `nodup_occurrences`).

## Overlays

A condition counts if it is in the rules that come out.  One that a later file replaces is never
looked at; one that a later file brings is.  Nothing is said about this apart from
`Ruleset.layered`, because the report sees nothing but these rules.
-/

namespace LifeCourse

/-! ## Conditions that can be read -/

/-- A condition is well formed if it is blank or its text is that of an expression. -/
theorem Condition.isWellFormed_iff {condition : Condition} :
    condition.isWellFormed = true ↔
      Text.trim condition.source.toList = [] ∨ ∃ e, Expr.parse condition.source = .ok e := by
  rw [isWellFormed, error?, condition.reading_eq, Reading.ofText]
  by_cases hblank : Text.trim condition.source.toList = []
  · simp [hblank]
  · cases hparse : Expr.parse condition.source <;> simp [hblank]

/-! ## Places of conditions -/

/-- A place in rules where a condition may stand. -/
inductive Place where
  | talent (id : Int)
  | requires (id : Int)
  | forbids (id : Int)
  | branch (id : Int) (k : Nat)
  | achievement (id : Int)
  deriving DecidableEq

namespace Place

/-- The kind of the entity that the place is in. -/
def kind : Place → EntityKind
  | talent _ => .talent
  | requires _ => .event
  | forbids _ => .event
  | branch _ _ => .event
  | achievement _ => .achievement

/-- The id of the entity that the place is in. -/
def id : Place → Int
  | talent id => id
  | requires id => id
  | forbids id => id
  | branch id _ => id
  | achievement id => id

end Place

namespace Ruleset

/-- The condition in a place. -/
def condition? (rules : Ruleset) : Place → Option Condition
  | .talent id => (rules.talents.find? id).bind Talent.condition
  | .requires id => (rules.events.find? id).bind Event.requires
  | .forbids id => (rules.events.find? id).bind Event.forbids
  | .branch id k => (rules.events.find? id).bind fun event =>
    event.branches[k]?.map Branch.condition
  | .achievement id => (rules.achievements.find? id).map Achievement.condition

/-- Every condition of the rules can be read. -/
def WellFormed (rules : Ruleset) : Prop :=
  ∀ place condition, rules.condition? place = some condition → condition.isWellFormed = true

/-- Rulesets laid over the first of them, one after the other. -/
def layered : List Ruleset → Ruleset
  | [] => standard
  | base :: overlays => overlays.foldl merge base

end Ruleset

namespace Lint

/-! ## Errors -/

/-- The errors among some issues. -/
def errors (issues : List Issue) : List Issue :=
  issues.filter fun issue => issue.severity == .error

theorem errors_append (issues issues' : List Issue) :
    errors (issues ++ issues') = errors issues ++ errors issues' :=
  List.filter_append ..

theorem errors_flatMap {α : Type} (items : List α) (f : α → List Issue) :
    errors (items.flatMap f) = items.flatMap fun item => errors (f item) :=
  List.filter_flatMap ..

theorem errors_flatMap_eq_nil {α : Type} (items : List α) {f : α → List Issue}
    (h : ∀ item ∈ items, errors (f item) = []) : errors (items.flatMap f) = [] := by
  rw [errors_flatMap]
  exact List.flatMap_eq_nil_iff.mpr h

theorem errors_eq_nil {issues : List Issue} (h : ∀ issue ∈ issues, issue.severity = .warning) :
    errors issues = [] := by
  refine List.filter_eq_nil_iff.mpr fun issue hmem => ?_
  rw [h issue hmem]
  decide

theorem errors_unknownIds {α : Type} {table : Table Int α} {ids : List Int} {issue : Int → Issue}
    (h : ∀ id, (issue id).severity = .warning) : errors (unknownIds table ids issue) = [] := by
  refine errors_eq_nil fun _ hmem => ?_
  obtain ⟨id, -, rfl⟩ := List.mem_map.mp hmem
  exact h id

/-- The error that a condition in a place is. -/
def error? (occurrence : Place × Condition) : Option Issue :=
  occurrence.2.error?.map
    (.malformedCondition occurrence.1.kind occurrence.1.id occurrence.2.source)

theorem errors_conditionIssues (place : Place) (condition : Condition) :
    errors (conditionIssues place.kind place.id condition) =
      (error? (place, condition)).toList := by
  rw [conditionIssues, error?]
  cases condition.error? <;> rfl

/-! ## Occurrences -/

/-- The conditions of a talent, each with its place. -/
def talentOccurrences (id : Int) (talent : Talent) : List (Place × Condition) :=
  talent.condition.toList.map fun condition => (.talent id, condition)

/-- The conditions of an event. -/
def eventOccurrences (id : Int) (event : Event) : List (Place × Condition) :=
  (event.requires.toList.map fun condition => (.requires id, condition)) ++
    (event.forbids.toList.map fun condition => (.forbids id, condition)) ++
    event.branches.zipIdx.map fun branch => (.branch id branch.2, branch.1.condition)

/-- The condition of an achievement. -/
def achievementOccurrences (id : Int) (achievement : Achievement) : List (Place × Condition) :=
  [(.achievement id, achievement.condition)]

/-- The conditions of rules, in the order of a report. -/
def occurrences (rules : Ruleset) : List (Place × Condition) :=
  (rules.talents.entries.flatMap fun entry => talentOccurrences entry.1 entry.2) ++
    (rules.events.entries.flatMap fun entry => eventOccurrences entry.1 entry.2) ++
    rules.achievements.entries.flatMap fun entry => achievementOccurrences entry.1 entry.2

theorem mem_talentOccurrences_iff {id : Int} {talent : Talent} {place : Place}
    {condition : Condition} :
    (place, condition) ∈ talentOccurrences id talent ↔
      place = .talent id ∧ talent.condition = some condition := by
  simp only [talentOccurrences, List.mem_map, Option.mem_toList, Prod.mk.injEq]
  constructor
  · rintro ⟨_, h, rfl, rfl⟩
    exact ⟨rfl, h⟩
  · rintro ⟨rfl, h⟩
    exact ⟨_, h, rfl, rfl⟩

theorem mem_eventOccurrences_iff {id : Int} {event : Event} {place : Place}
    {condition : Condition} :
    (place, condition) ∈ eventOccurrences id event ↔
      place = .requires id ∧ event.requires = some condition ∨
      place = .forbids id ∧ event.forbids = some condition ∨
      ∃ k, place = .branch id k ∧ event.branches[k]?.map Branch.condition = some condition := by
  simp only [eventOccurrences, List.mem_append, List.mem_map, Option.mem_toList, Prod.mk.injEq,
    Prod.exists, List.mk_mem_zipIdx_iff_getElem?, Option.map_eq_some_iff, or_assoc]
  constructor
  · rintro (⟨_, h, rfl, rfl⟩ | ⟨_, h, rfl, rfl⟩ | ⟨branch, k, h, rfl, rfl⟩)
    · exact .inl ⟨rfl, h⟩
    · exact .inr (.inl ⟨rfl, h⟩)
    · exact .inr (.inr ⟨k, rfl, branch, h, rfl⟩)
  · rintro (⟨rfl, h⟩ | ⟨rfl, h⟩ | ⟨k, rfl, branch, h, rfl⟩)
    · exact .inl ⟨_, h, rfl, rfl⟩
    · exact .inr (.inl ⟨_, h, rfl, rfl⟩)
    · exact .inr (.inr ⟨branch, k, h, rfl, rfl⟩)

theorem mem_achievementOccurrences_iff {id : Int} {achievement : Achievement} {place : Place}
    {condition : Condition} :
    (place, condition) ∈ achievementOccurrences id achievement ↔
      place = .achievement id ∧ condition = achievement.condition := by
  rw [achievementOccurrences, List.mem_singleton, Prod.mk.injEq]

/-- **The report meets every condition in its place.** -/
theorem mem_occurrences_iff {rules : Ruleset} {place : Place} {condition : Condition} :
    (place, condition) ∈ occurrences rules ↔ rules.condition? place = some condition := by
  simp only [occurrences, List.mem_append, List.mem_flatMap, Prod.exists,
    mem_talentOccurrences_iff, mem_eventOccurrences_iff, mem_achievementOccurrences_iff,
    ← Table.find?_eq_some_iff]
  constructor
  · rintro ((⟨id, talent, hfind, rfl, h⟩ | ⟨id, event, hfind, h⟩) |
      ⟨id, achievement, hfind, rfl, rfl⟩)
    · exact Option.bind_eq_some_iff.mpr ⟨talent, hfind, h⟩
    · rcases h with ⟨rfl, h⟩ | ⟨rfl, h⟩ | ⟨k, rfl, h⟩
      · exact Option.bind_eq_some_iff.mpr ⟨event, hfind, h⟩
      · exact Option.bind_eq_some_iff.mpr ⟨event, hfind, h⟩
      · exact Option.bind_eq_some_iff.mpr ⟨event, hfind, h⟩
    · exact Option.map_eq_some_iff.mpr ⟨achievement, hfind, rfl⟩
  · intro h
    cases place with
    | talent id =>
      obtain ⟨talent, hfind, h⟩ := Option.bind_eq_some_iff.mp h
      exact .inl (.inl ⟨id, talent, hfind, rfl, h⟩)
    | requires id =>
      obtain ⟨event, hfind, h⟩ := Option.bind_eq_some_iff.mp h
      exact .inl (.inr ⟨id, event, hfind, .inl ⟨rfl, h⟩⟩)
    | forbids id =>
      obtain ⟨event, hfind, h⟩ := Option.bind_eq_some_iff.mp h
      exact .inl (.inr ⟨id, event, hfind, .inr (.inl ⟨rfl, h⟩)⟩)
    | branch id k =>
      obtain ⟨event, hfind, h⟩ := Option.bind_eq_some_iff.mp h
      exact .inl (.inr ⟨id, event, hfind, .inr (.inr ⟨k, rfl, h⟩)⟩)
    | achievement id =>
      obtain ⟨achievement, hfind, h⟩ := Option.map_eq_some_iff.mp h
      exact .inr ⟨id, achievement, hfind, rfl, h.symm⟩

/-! ## No place twice -/

theorem owner_of_mem_talentOccurrences {id : Int} {talent : Talent}
    {occurrence : Place × Condition} (h : occurrence ∈ talentOccurrences id talent) :
    occurrence.1.kind = .talent ∧ occurrence.1.id = id := by
  obtain ⟨place, condition⟩ := occurrence
  obtain ⟨rfl, -⟩ := mem_talentOccurrences_iff.mp h
  exact ⟨rfl, rfl⟩

theorem owner_of_mem_eventOccurrences {id : Int} {event : Event}
    {occurrence : Place × Condition} (h : occurrence ∈ eventOccurrences id event) :
    occurrence.1.kind = .event ∧ occurrence.1.id = id := by
  obtain ⟨place, condition⟩ := occurrence
  obtain ⟨rfl, -⟩ | ⟨rfl, -⟩ | ⟨k, rfl, -⟩ := mem_eventOccurrences_iff.mp h
  · exact ⟨rfl, rfl⟩
  · exact ⟨rfl, rfl⟩
  · exact ⟨rfl, rfl⟩

theorem owner_of_mem_achievementOccurrences {id : Int} {achievement : Achievement}
    {occurrence : Place × Condition} (h : occurrence ∈ achievementOccurrences id achievement) :
    occurrence.1.kind = .achievement ∧ occurrence.1.id = id := by
  obtain rfl := List.mem_singleton.mp h
  exact ⟨rfl, rfl⟩

theorem nodup_map_toList {α β : Type} (o : Option α) (f : α → β) : (o.toList.map f).Nodup := by
  rw [← Option.toList_map]
  exact Option.toList_nodup _

theorem nodup_places_talentOccurrences (id : Int) (talent : Talent) :
    ((talentOccurrences id talent).map Prod.fst).Nodup := by
  rw [talentOccurrences, List.map_map]
  exact nodup_map_toList _ _

theorem nodup_places_eventOccurrences (id : Int) (event : Event) :
    ((eventOccurrences id event).map Prod.fst).Nodup := by
  have hbranches : ((event.branches.zipIdx.map fun branch =>
      (Place.branch id branch.2, branch.1.condition)).map Prod.fst) =
      (List.range' 0 event.branches.length).map (Place.branch id) := by
    rw [← List.zipIdx_map_snd 0 event.branches, List.map_map, List.map_map]
    rfl
  have hinjective : Function.Injective (Place.branch id) := fun _ _ h => (Place.branch.inj h).2
  rw [eventOccurrences, List.map_append, List.map_append, hbranches, List.map_map, List.map_map]
  refine List.nodup_append.mpr ⟨List.nodup_append.mpr ⟨nodup_map_toList _ _,
    nodup_map_toList _ _, ?_⟩, (List.nodup_range' ..).map hinjective, ?_⟩
  · intro place hplace other hother
    obtain ⟨_, -, rfl⟩ := List.mem_map.mp hplace
    obtain ⟨_, -, rfl⟩ := List.mem_map.mp hother
    exact Place.noConfusion
  · intro place hplace other hother
    obtain ⟨k, -, rfl⟩ := List.mem_map.mp hother
    rcases List.mem_append.mp hplace with hplace | hplace
    · obtain ⟨_, -, rfl⟩ := List.mem_map.mp hplace
      exact Place.noConfusion
    · obtain ⟨_, -, rfl⟩ := List.mem_map.mp hplace
      exact Place.noConfusion

theorem nodup_places_achievementOccurrences (id : Int) (achievement : Achievement) :
    ((achievementOccurrences id achievement).map Prod.fst).Nodup :=
  List.nodup_singleton _

/-- What a table's entities pose stands in places of their own, and each of them is in an entity of
the same kind. -/
theorem nodup_places_flatMap {α : Type} (table : Table Int α) (kind : EntityKind)
    {f : Int → α → List (Place × Condition)}
    (howner : ∀ {id a occurrence}, occurrence ∈ f id a →
      occurrence.1.kind = kind ∧ occurrence.1.id = id)
    (hnodup : ∀ id a, ((f id a).map Prod.fst).Nodup) :
    ((table.entries.flatMap fun entry => f entry.1 entry.2).map Prod.fst).Nodup ∧
      ∀ place ∈ (table.entries.flatMap fun entry => f entry.1 entry.2).map Prod.fst,
        place.kind = kind := by
  rw [List.map_flatMap, List.nodup_flatMap]
  refine ⟨⟨fun entry _ => hnodup entry.1 entry.2, table.ascending.imp fun hlt => ?_⟩, ?_⟩
  · intro place hplace hother
    obtain ⟨occurrence, hmem, rfl⟩ := List.mem_map.mp hplace
    obtain ⟨occurrence', hmem', heq⟩ := List.mem_map.mp hother
    rw [← (howner hmem).2, ← (howner hmem').2, heq] at hlt
    exact Int.lt_irrefl _ hlt
  · intro place hplace
    obtain ⟨entry, -, hplace⟩ := List.mem_flatMap.mp hplace
    obtain ⟨occurrence, hmem, rfl⟩ := List.mem_map.mp hplace
    exact (howner hmem).1

/-- **No place is met twice.** -/
theorem nodup_occurrences (rules : Ruleset) : ((occurrences rules).map Prod.fst).Nodup := by
  obtain ⟨htalents, htalent⟩ := nodup_places_flatMap rules.talents .talent
    owner_of_mem_talentOccurrences nodup_places_talentOccurrences
  obtain ⟨hevents, hevent⟩ := nodup_places_flatMap rules.events .event
    owner_of_mem_eventOccurrences nodup_places_eventOccurrences
  obtain ⟨hachievements, hachievement⟩ := nodup_places_flatMap rules.achievements .achievement
    owner_of_mem_achievementOccurrences nodup_places_achievementOccurrences
  rw [occurrences, List.map_append, List.map_append]
  refine List.nodup_append.mpr ⟨List.nodup_append.mpr ⟨htalents, hevents, ?_⟩, hachievements, ?_⟩
  · rintro place hplace other hother rfl
    have hkind := (htalent place hplace).symm.trans (hevent place hother)
    cases hkind
  · rintro place hplace other hother rfl
    have hlast := hachievement place hother
    rcases List.mem_append.mp hplace with hplace | hplace
    · have hkind := (htalent place hplace).symm.trans hlast
      cases hkind
    · have hkind := (hevent place hplace).symm.trans hlast
      cases hkind

/-! ## The errors of a report -/

/-- The conditions that cannot be read are the errors among the issues of all of them. -/
theorem filterMap_error? (occurrences : List (Place × Condition)) :
    occurrences.filterMap error? =
      errors (occurrences.flatMap fun occurrence =>
        conditionIssues occurrence.1.kind occurrence.1.id occurrence.2) := by
  rw [errors_flatMap, List.filterMap_eq_flatMap_toList]
  exact List.flatMap_congr fun occurrence _ =>
    (errors_conditionIssues occurrence.1 occurrence.2).symm

theorem errors_replacementIssues (rules : Ruleset) (id : Int) (rule : Replacement) :
    errors (replacementIssues rules id rule) = [] := by
  have hgrades : errors (((rule.grades.map Prod.fst).filter fun grade =>
      !hasCandidate rules id grade).map (Issue.emptyGrade id)) = [] := by
    refine errors_eq_nil fun _ hmem => ?_
    obtain ⟨grade, -, rfl⟩ := List.mem_map.mp hmem
    rfl
  rw [replacementIssues, errors_append, hgrades, errors_unknownIds fun _ => rfl, List.append_nil]

theorem errors_talentIssues (rules : Ruleset) (id : Int) (talent : Talent) :
    errors (talentIssues rules id talent) = (talentOccurrences id talent).filterMap error? := by
  have hreplacement := errors_flatMap_eq_nil talent.replacement.toList
    fun rule _ => errors_replacementIssues rules id rule
  rw [filterMap_error?, talentOccurrences, List.flatMap_map, talentIssues, errors_append,
    errors_append, errors_unknownIds fun _ => rfl, hreplacement, List.append_nil, List.append_nil]
  rfl

theorem errors_followUpIssues (rules : Ruleset) (id : Int) (followUp : FollowUp) :
    errors (followUpIssues rules id followUp) = [] := by
  cases followUp with
  | event target => exact errors_unknownIds fun _ => rfl
  | text s => rfl

theorem errors_branchIssues (rules : Ruleset) (id : Int) (branch : Branch) :
    errors (branchIssues rules id branch) =
      errors (conditionIssues .event id branch.condition) := by
  rw [branchIssues, errors_append, errors_unknownIds fun _ => rfl, List.append_nil]

theorem errors_eventIssues (rules : Ruleset) (id : Int) (event : Event) :
    errors (eventIssues rules id event) = (eventOccurrences id event).filterMap error? := by
  have hfollowUp := errors_flatMap_eq_nil event.followUp.toList
    fun followUp _ => errors_followUpIssues rules id followUp
  -- The places number the branches, and the report does not.
  have hbranches : errors (event.branches.flatMap (branchIssues rules id)) =
      errors (event.branches.zipIdx.flatMap fun branch =>
        conditionIssues .event id branch.1.condition) := by
    have hfst : event.branches.zipIdx.map Prod.fst = event.branches := List.zipIdx_map_fst 0 _
    rw [errors_flatMap, errors_flatMap]
    simp only [errors_branchIssues]
    conv_lhs => rw [← hfst, List.flatMap_map]
  rw [filterMap_error?, eventOccurrences, List.flatMap_append, List.flatMap_append,
    List.flatMap_map, List.flatMap_map, List.flatMap_map, errors_append, errors_append,
    eventIssues, errors_append, errors_append, errors_append, hfollowUp, List.append_nil, hbranches]
  rfl

theorem errors_ageIssues (rules : Ruleset) (age : Int) (slot : AgeSlot) :
    errors (ageIssues rules age slot) = [] := by
  have hpool : ∀ entry ∈ slot.pool, errors (poolIssues rules age entry) = [] := by
    intro entry _
    rw [poolIssues, errors_append, errors_unknownIds fun _ => rfl]
    split <;> rfl
  rw [ageIssues, errors_append, errors_flatMap_eq_nil _ hpool, errors_unknownIds fun _ => rfl]
  rfl

theorem errors_achievementIssues (id : Int) (achievement : Achievement) :
    errors (achievementIssues id achievement) =
      (achievementOccurrences id achievement).filterMap error? := by
  have hunchecked : errors (if achievement.opportunity.isNone then [.neverChecked id] else []) =
      [] := by
    split <;> rfl
  rw [filterMap_error?, achievementOccurrences, List.flatMap_singleton, achievementIssues,
    errors_append, hunchecked, List.append_nil]
  rfl

theorem errors_rubricIssues (key : String) : errors (rubricIssues key) = [] := by
  rw [rubricIssues]
  split <;> rfl

/-- **The errors of a report** are the conditions that cannot be read, each in its place. -/
theorem errors_report (rules : Ruleset) :
    errors (report rules) = (occurrences rules).filterMap error? := by
  have hages := errors_flatMap_eq_nil rules.ages.entries
    fun entry _ => errors_ageIssues rules entry.1 entry.2
  have hrubrics := errors_flatMap_eq_nil rules.rubrics.keys
    fun key _ => errors_rubricIssues key
  rw [report, errors_append, errors_append, errors_append, errors_append, hages, hrubrics,
    List.append_nil, List.append_nil, errors_flatMap, errors_flatMap, errors_flatMap, occurrences,
    List.filterMap_append, List.filterMap_append, List.filterMap_flatMap, List.filterMap_flatMap,
    List.filterMap_flatMap]
  simp only [errors_talentIssues, errors_eventIssues, errors_achievementIssues]

theorem length_errors (issues : List Issue) : (errors issues).length = errorCount issues :=
  List.countP_eq_length_filter.symm

/-- A report has no error exactly if every condition can be read. -/
theorem errorCount_report_eq_zero_iff {rules : Ruleset} :
    errorCount (report rules) = 0 ↔ rules.WellFormed := by
  rw [← length_errors, errors_report, List.length_eq_zero_iff, List.filterMap_eq_nil_iff]
  constructor
  · intro h place condition hplace
    have herror := h _ (mem_occurrences_iff.mpr hplace)
    rw [error?, Option.map_eq_none_iff] at herror
    rw [Condition.isWellFormed, herror]
    rfl
  · rintro h ⟨place, condition⟩ hmem
    have hwell := h place condition (mem_occurrences_iff.mp hmem)
    rw [error?, Option.map_eq_none_iff]
    exact Option.isNone_iff_eq_none.mp hwell

/-! ## Files -/

/-- The files hold these rulesets. -/
def Hold (files : Files) (paths : List String) (loaded : List Ruleset) : Prop :=
  List.Forall₂ (fun path rules => loadFile files path = .ok rules) paths loaded

variable {files : Files}

theorem overlayFiles_of_hold {paths : List String} {loaded : List Ruleset}
    (h : Hold files paths loaded) (rules : Ruleset) :
    overlayFiles files paths rules = ⟨paths, .ok (loaded.foldl Ruleset.merge rules)⟩ := by
  induction h generalizing rules with
  | nil => rfl
  | cons hload _ ih => simp only [overlayFiles, hload, ih, List.foldl_cons]

/-- **Files that hold rules make the layered ones.** -/
theorem loadFiles_of_hold {paths : List String} {loaded : List Ruleset}
    (h : Hold files paths loaded) :
    loadFiles files paths = ⟨paths, .ok (Ruleset.layered loaded)⟩ := by
  cases h with
  | nil => rfl
  | cons hload hrest => simp only [loadFiles, hload, overlayFiles_of_hold hrest, Ruleset.layered]

/-- The first of the files that holds no rules. -/
structure Stops (files : Files) (earlier : List String) (path : String) (failure : Failure) :
    Prop where
  earlier : ∃ loaded, Hold files earlier loaded
  failure : loadFile files path = .error failure

theorem overlayFiles_of_stops {earlier later : List String} {path : String} {failure : Failure}
    (h : Stops files earlier path failure) (rules : Ruleset) :
    overlayFiles files (earlier ++ path :: later) rules = ⟨earlier, .error (path, failure)⟩ := by
  obtain ⟨⟨loaded, hloaded⟩, hfailure⟩ := h
  induction hloaded generalizing rules with
  | nil => simp only [List.nil_append, overlayFiles, hfailure]
  | cons hload _ ih => simp only [List.cons_append, overlayFiles, hload, ih]

/-- **Loading stops at the first file that holds no rules.** -/
theorem loadFiles_of_stops {earlier later : List String} {path : String} {failure : Failure}
    (h : Stops files earlier path failure) :
    loadFiles files (earlier ++ path :: later) = ⟨earlier, .error (path, failure)⟩ := by
  obtain ⟨⟨loaded, hloaded⟩, hfailure⟩ := h
  cases hloaded with
  | nil => simp only [List.nil_append, loadFiles, hfailure]
  | cons hload hrest =>
    simp only [List.cons_append, loadFiles, hload, overlayFiles_of_stops ⟨⟨_, hrest⟩, hfailure⟩]

/-- Either every file holds rules, or there is a first one that does not. -/
theorem hold_or_stops (files : Files) (paths : List String) :
    (∃ loaded, Hold files paths loaded) ∨
      ∃ earlier path later failure, paths = earlier ++ path :: later ∧
        Stops files earlier path failure := by
  induction paths with
  | nil => exact .inl ⟨[], .nil⟩
  | cons path paths ih =>
    cases hload : loadFile files path with
    | error failure => exact .inr ⟨[], path, paths, failure, rfl, ⟨[], .nil⟩, hload⟩
    | ok rules =>
      obtain ⟨loaded, hloaded⟩ | ⟨earlier, other, later, failure, rfl, hstops⟩ := ih
      · exact .inl ⟨rules :: loaded, .cons hload hloaded⟩
      · obtain ⟨⟨loaded, hloaded⟩, hfailure⟩ := hstops
        exact .inr ⟨path :: earlier, other, later, failure, rfl,
          ⟨rules :: loaded, .cons hload hloaded⟩, hfailure⟩

/-! ## The verdict -/

theorem asksForUsage_iff {arguments : List String} :
    asksForUsage arguments = true ↔
      arguments = [] ∨ arguments.head? = some "--help" ∨ arguments.head? = some "-h" := by
  cases arguments with
  | nil => simp [asksForUsage]
  | cons first rest => simp [asksForUsage]

theorem status_eq_zero_iff {outcome : Outcome} : outcome.status = 0 ↔ outcome.succeeded = true := by
  rw [Outcome.status]
  cases outcome.succeeded <;> decide

theorem run_of_asksForUsage {arguments : List String} (h : asksForUsage arguments = true) :
    run files arguments = ⟨[usage], none, true⟩ :=
  if_pos h

theorem run_of_hold {arguments : List String} {loaded : List Ruleset}
    (husage : asksForUsage arguments = false) (h : Hold files arguments loaded) :
    run files arguments =
      ⟨(arguments.map fun path => s!"  Loaded: {path}") ++
          reportLines (Ruleset.layered loaded) (report (Ruleset.layered loaded)),
        none, errorCount (report (Ruleset.layered loaded)) == 0⟩ := by
  rw [run, husage, loadFiles_of_hold h]
  rfl

theorem run_of_stops {earlier later : List String} {path : String} {failure : Failure}
    (husage : asksForUsage (earlier ++ path :: later) = false)
    (h : Stops files earlier path failure) :
    run files (earlier ++ path :: later) =
      ⟨earlier.map fun path => s!"  Loaded: {path}", some (path, failure), false⟩ := by
  rw [run, husage, loadFiles_of_stops h]
  rfl

theorem errorCount_add_warningCount (issues : List Issue) :
    errorCount issues + warningCount issues = issues.length :=
  Nat.add_sub_cancel' List.countP_le_length

theorem not_hold_of_stops {earlier later : List String} {path : String} {failure : Failure}
    (h : Stops files earlier path failure) (loaded : List Ruleset) :
    ¬Hold files (earlier ++ path :: later) loaded := by
  intro hloaded
  have hload := loadFiles_of_hold hloaded
  rw [loadFiles_of_stops h] at hload
  cases (Loading.mk.inj hload).2

theorem layered_eq_of_hold {paths : List String} {loaded loaded' : List Ruleset}
    (h : Hold files paths loaded) (h' : Hold files paths loaded') :
    Ruleset.layered loaded = Ruleset.layered loaded' := by
  have hload := loadFiles_of_hold h
  rw [loadFiles_of_hold h'] at hload
  exact (Except.ok.inj (Loading.mk.inj hload).2).symm

/-- **The status of the command.** -/
theorem status_run_eq_zero_iff (files : Files) (arguments : List String) :
    (run files arguments).status = 0 ↔
      arguments = [] ∨ arguments.head? = some "--help" ∨ arguments.head? = some "-h" ∨
        ∃ loaded, Hold files arguments loaded ∧ (Ruleset.layered loaded).WellFormed := by
  have hask := @asksForUsage_iff arguments
  rw [status_eq_zero_iff, ← or_assoc, ← or_assoc, or_assoc (a := arguments = []), ← hask]
  cases husage : asksForUsage arguments with
  | true =>
    rw [run_of_asksForUsage husage]
    exact ⟨fun _ => .inl rfl, fun _ => rfl⟩
  | false =>
    rw [or_iff_right Bool.false_ne_true]
    obtain ⟨loaded, hloaded⟩ | ⟨earlier, path, later, failure, rfl, hstops⟩ :=
      hold_or_stops files arguments
    · rw [run_of_hold husage hloaded]
      constructor
      · exact fun h => ⟨loaded, hloaded, errorCount_report_eq_zero_iff.mp (beq_iff_eq.mp h)⟩
      · rintro ⟨loaded', hloaded', hwell⟩
        rw [layered_eq_of_hold hloaded' hloaded] at hwell
        exact beq_iff_eq.mpr (errorCount_report_eq_zero_iff.mpr hwell)
    · rw [run_of_stops husage hstops]
      constructor
      · exact fun h => absurd h Bool.false_ne_true
      · rintro ⟨loaded, hloaded, -⟩
        exact absurd hloaded (not_hold_of_stops hstops loaded)

/-- **The verdict.**  The command has status zero if it is asked how it is to be used, or else
exactly if every file holds rules and every condition of the rules they make together can be read.
Of any rules, each condition that cannot be read is one error of the report, and there are no other
errors.  What is printed ends with the report's issues and with two numbers, which are those of its
errors and its warnings and add up to the number of the issues; if a file holds no rules, no report
is printed. -/
theorem verdict :
    (∀ (files : Files) (arguments : List String), (run files arguments).status = 0 ↔
      arguments = [] ∨ arguments.head? = some "--help" ∨ arguments.head? = some "-h" ∨
        ∃ loaded, Hold files arguments loaded ∧ (Ruleset.layered loaded).WellFormed) ∧
    (∀ rules : Ruleset, ∃ posed : List (Place × Condition),
      (posed.map Prod.fst).Nodup ∧
      (∀ place condition, (place, condition) ∈ posed ↔
        rules.condition? place = some condition) ∧
      errors (report rules) = posed.filterMap error?) ∧
    (∀ (files : Files) (arguments : List String) (loaded : List Ruleset),
      asksForUsage arguments = false → Hold files arguments loaded →
      let rules := Ruleset.layered loaded
      let issues := report rules
      ∃ e w : Nat, (run files arguments).lines =
          (arguments.map fun path => s!"  Loaded: {path}") ++
            [sizes rules, "", "=== Config Lint Report ===", ""] ++
            (if issues = [] then ["All checks passed!"] else []) ++
            issues.map Issue.line ++
            ["", s!"Summary: {e} errors, {w} warnings"] ∧
        e = (errors issues).length ∧ e + w = issues.length) ∧
    ∀ (files : Files) (earlier later : List String) (path : String) (failure : Failure),
      asksForUsage (earlier ++ path :: later) = false → Stops files earlier path failure →
      (run files (earlier ++ path :: later)).lines =
          earlier.map (fun path => s!"  Loaded: {path}") ∧
        (run files (earlier ++ path :: later)).failure = some (path, failure) := by
  refine ⟨status_run_eq_zero_iff, fun rules => ?_, ?_, ?_⟩
  · exact ⟨occurrences rules, nodup_occurrences rules, fun _ _ => mem_occurrences_iff,
      errors_report rules⟩
  · intro files arguments loaded husage hloaded rules issues
    refine ⟨errorCount issues, warningCount issues, ?_, (length_errors issues).symm,
      errorCount_add_warningCount issues⟩
    rw [run_of_hold husage hloaded, reportLines]
    simp only [List.isEmpty_iff, List.append_assoc]
    rfl
  · intro files earlier later path failure husage hstops
    rw [run_of_stops husage hstops]
    exact ⟨rfl, rfl⟩

/-! ## A condition that an overlay repairs -/

/-- The texts of the conditions of rules, each with its place. -/
def texts (rules : Ruleset) : List (Place × String) :=
  (occurrences rules).map fun posed => (posed.1, posed.2.source)

/-- Rules are well formed if the text of each condition is blank or that of an expression. -/
theorem wellFormed_iff {rules : Ruleset} :
    rules.WellFormed ↔ ∀ posed ∈ texts rules,
      Text.trim posed.2.toList = [] ∨ ∃ e, Expr.parse posed.2 = .ok e := by
  constructor
  · intro h posed hmem
    obtain ⟨⟨place, condition⟩, hposed, rfl⟩ := List.mem_map.mp hmem
    exact Condition.isWellFormed_iff.mp (h place condition (mem_occurrences_iff.mp hposed))
  · intro h place condition hplace
    have hmem : (place, condition.source) ∈ texts rules :=
      List.mem_map_of_mem (mem_occurrences_iff.mpr hplace)
    exact Condition.isWellFormed_iff.mpr (h (place, condition.source) hmem)

/-- A talent whose condition lacks a parenthesis. -/
def brokenText : String :=
  "\x7b\"talents\":\x7b\"1\":\x7b\"condition\":\"(AGE>3\"\x7d\x7d\x7d"

/-- The same talent with a condition that can be read. -/
def repairText : String :=
  "\x7b\"talents\":\x7b\"1\":\x7b\"condition\":\"AGE>3\"\x7d\x7d\x7d"

/-- Two files that hold these. -/
def repairFiles : Files
  | "a" => .ok brokenText.toUTF8
  | "b" => .ok repairText.toUTF8
  | _ => .error .missing

/-- Their paths have no extension. -/
theorem extension?_of_letter {path : String} (h : path = "a" ∨ path = "b") :
    extension? path = none := by
  have hstart : ¬String.Pos.Raw.atEnd path 0 = true := by
    rcases h with rfl | rfl <;> decide +kernel
  have hother : ¬(String.Pos.Raw.get path 0 == String.Pos.Raw.get "/" 0) = true := by
    rcases h with rfl | rfl <;> decide +kernel
  have hend : String.Pos.Raw.atEnd path
      (String.Pos.Raw.next path (String.Pos.Raw.unoffsetBy 0 0)) = true := by
    rcases h with rfl | rfl <;> decide +kernel
  have hsplit : path.splitOn "/" = [path] := by
    rw [String.splitOn, if_neg (by decide), String.splitOnAux, if_neg hstart, if_neg hother,
      String.splitOnAux, if_pos hend]
    rcases h with rfl | rfl <;> decide +kernel
  rw [extension?, fileName?, hsplit]
  rcases h with rfl | rfl <;> rfl

theorem loadFile_repairFiles {path text : String} (hpath : path = "a" ∨ path = "b")
    (htext : repairFiles path = .ok text.toUTF8) :
    loadFile repairFiles path = Ruleset.ofJson text := by
  have hread : String.fromUTF8? text.toUTF8 = some text := dif_pos text.isValidUTF8
  rw [loadFile, htext]
  simp only [hread, extension?_of_letter hpath]
  exact if_neg nofun

/-- What the two files hold.  The second one's condition is there in place of the first one's. -/
theorem exists_hold_repairFiles : ∃ broken repair,
    Hold repairFiles ["a"] [broken] ∧ Hold repairFiles ["a", "b"] [broken, repair] ∧
    texts broken = [(.talent 1, "(AGE>3")] ∧
    texts (broken.merge repair) = [(.talent 1, "AGE>3")] := by
  have htexts : ((Ruleset.ofJson brokenText).toOption.bind fun broken =>
      (Ruleset.ofJson repairText).toOption.map fun repair =>
        (texts broken, texts (broken.merge repair))) =
      some ([(.talent 1, "(AGE>3")], [(.talent 1, "AGE>3")]) := by decide +kernel
  obtain ⟨broken, hbroken, hrest⟩ := Option.bind_eq_some_iff.mp htexts
  obtain ⟨repair, hrepair, hpair⟩ := Option.map_eq_some_iff.mp hrest
  have hfirst : loadFile repairFiles "a" = .ok broken := by
    rw [loadFile_repairFiles (.inl rfl) rfl]
    exact Outcome.eq_ok_of_toOption hbroken
  have hsecond : loadFile repairFiles "b" = .ok repair := by
    rw [loadFile_repairFiles (.inr rfl) rfl]
    exact Outcome.eq_ok_of_toOption hrepair
  obtain ⟨htext, hmerged⟩ := Prod.mk.inj hpair
  exact ⟨broken, repair, .cons hfirst .nil, .cons hfirst (.cons hsecond .nil), htext, hmerged⟩

theorem wellFormed_of_texts {rules : Ruleset} (h : texts rules = [(.talent 1, "AGE>3")]) :
    rules.WellFormed := by
  have hcut : Token.ofText "AGE>3".toList = [.atom ['A', 'G', 'E', '>', '3']] := by decide +kernel
  have hparse : Expr.parse "AGE>3" = .ok (.compare "AGE" .greater (.whole 3)) := by
    refine Expr.parse_eq_ok_iff.mpr (isWritten_iff.mpr ?_)
    rw [hcut]
    exact .single (.bare (.atom rfl))
  rw [wellFormed_iff, h]
  exact List.forall_mem_singleton.mpr (.inr ⟨_, hparse⟩)

theorem not_wellFormed_of_texts {rules : Ruleset} (h : texts rules = [(.talent 1, "(AGE>3")]) :
    ¬rules.WellFormed := by
  have hparse : Expr.parse "(AGE>3" = .error .unbalanced :=
    Expr.parse_of_not_balanced (by decide +kernel)
  have hblank : Text.trim "(AGE>3".toList ≠ [] := by decide +kernel
  rw [wellFormed_iff, h]
  intro hwell
  obtain hnil | ⟨e, he⟩ := List.forall_mem_singleton.mp hwell
  · exact hblank hnil
  · rw [hparse] at he
    cases he

/-- The first file alone is refused.  With the second one it passes, and no error is counted.  With
a third one between them that is not there, nothing is printed but that the first one was
loaded. -/
theorem verdict_repaired : (run repairFiles ["a"]).status ≠ 0 ∧
    (run repairFiles ["a", "b"]).status = 0 ∧
    (∃ w : Nat, (run repairFiles ["a", "b"]).lines.getLast? =
      some s!"Summary: {0} errors, {w} warnings") ∧
    (run repairFiles ["a", "c", "b"]).lines = ["  Loaded: a"] := by
  obtain ⟨hstatus, -, hprinted, hstopped⟩ := verdict
  obtain ⟨broken, repair, hone, htwo, hbroken, hrepaired⟩ := exists_hold_repairFiles
  have hwell : (Ruleset.layered [broken, repair]).WellFormed := wellFormed_of_texts hrepaired
  refine ⟨fun hzero => ?_, ?_, ?_, ?_⟩
  · obtain h | h | h | ⟨loaded, hloaded, hbad⟩ := (hstatus _ _).mp hzero
    · cases h
    · exact absurd h (by decide)
    · exact absurd h (by decide)
    · rw [layered_eq_of_hold hloaded hone] at hbad
      exact not_wellFormed_of_texts hbroken hbad
  · exact (hstatus _ _).mpr (.inr (.inr (.inr ⟨_, htwo, hwell⟩)))
  · obtain ⟨e, w, hlines, he, -⟩ := hprinted _ _ _ (by decide) htwo
    rw [length_errors, errorCount_report_eq_zero_iff.mpr hwell] at he
    subst he
    refine ⟨w, ?_⟩
    rw [hlines, List.getLast?_append_of_ne_nil _ (List.cons_ne_nil _ _)]
    rfl
  · have hmissing : loadFile repairFiles "c" = .error (.file .missing) := rfl
    exact (hstopped _ ["a"] ["b"] "c" _ (by decide) ⟨⟨_, hone⟩, hmissing⟩).1

end Lint
end LifeCourse
