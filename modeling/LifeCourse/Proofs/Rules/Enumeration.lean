import LifeCourse.Lint.Report
import LifeCourse.Proofs.Rules.Coherence
import Mathlib.Data.List.Nodup
import Mathlib.Data.List.Pairwise
import Mathlib.Data.List.Perm.Basic

/-!
# Tables in any order

Rules that are held in hash tables are enumerated in an order that depends on how they came about.
A table as it is modelled has no such order: it goes by ascending keys, and two tables with the same
answers are equal.  To say that the order does not matter, it has to be there.  An
`Enumeration rules` is one order of each table of the rules, and what goes through a table is written
down here once more for any enumeration, with the sorting that makes up for its order.

## The list beside the tables

The achievements are not sorted whenever they are considered.  Their ids are collected when the table
may have changed, in whatever order they come, and sorted; the list is kept beside the tables and
read from then on.  It belongs to an enumeration, as it is: that it was collected from the table as
the table is now (`Enumeration.Collected`) is said apart, wherever it is needed.

## One fact about sorting

A list enumerates a table if it has every key once, with the answer of the table
(`Table.Enumerates`).  Everything that is sorted is sorted by keys which are all different, and is
therefore the one ascending list of its members (`sortOn_eq_of_perm`).  What is not sorted is only
asked whether it has a member of some kind, which no order can change.

The report of the checker is treated here (`Enumeration.report_eq`).
-/

namespace LifeCourse

/-! ## Sorting by a key -/

section Sorting

variable {κ β : Type} [LE κ] [LT κ] [DecidableLT κ] [Std.IsLinearOrder κ] [Std.LawfulOrderLT κ]

/-- The members of a list, none before one with a smaller key. -/
def sortOn (key : β → κ) (items : List β) : List β :=
  items.mergeSort fun a b => !decide (key b < key a)

omit [DecidableLT κ] [Std.IsLinearOrder κ] in
/-- In an ascending list the members have different keys. -/
theorem eq_of_key_eq {key : β → κ} {items : List β}
    (hascending : items.Pairwise fun a b => key a < key b) {a b : β} (ha : a ∈ items)
    (hb : b ∈ items) (hkey : key a = key b) : a = b := by
  have hdistinct : items.Pairwise fun a b => key a ≠ key b := by
    refine hascending.imp fun hlt heq => ?_
    rw [heq] at hlt
    exact Std.lt_irrefl hlt
  have : Std.Symm fun a b : β => key a ≠ key b := ⟨fun _ _ hne => hne.symm⟩
  by_contra hne
  exact hdistinct.forall ha hb hne hkey

/-- **Sorting undoes every order.** -/
theorem sortOn_eq_of_perm {key : β → κ} {items ascending : List β} (hperm : items.Perm ascending)
    (hascending : ascending.Pairwise fun a b => key a < key b) : sortOn key items = ascending := by
  have hle : ∀ a b : β, (!decide (key b < key a)) = true ↔ key a ≤ key b := by
    intro a b
    rw [Bool.not_eq_true', decide_eq_false_iff_not, Std.not_lt]
  have hsorted : (sortOn key items).Pairwise fun a b => (!decide (key b < key a)) = true := by
    refine List.pairwise_mergeSort (fun a b c hab hbc => ?_) (fun a b => ?_) items
    · exact (hle a c).mpr (Std.le_trans ((hle a b).mp hab) ((hle b c).mp hbc))
    · rw [Bool.or_eq_true, hle, hle]
      exact Std.le_total
  have hmem : (sortOn key items).Perm ascending := (List.mergeSort_perm items _).trans hperm
  refine List.Perm.eq_of_pairwise ?_ hsorted (hascending.imp fun hlt => ?_) hmem
  · intro a b ha hb hab hba
    have hkey : key a = key b := Std.le_antisymm ((hle a b).mp hab) ((hle b a).mp hba)
    exact eq_of_key_eq hascending (hmem.subset ha) hb hkey
  · exact (hle _ _).mpr (Std.le_of_lt hlt)

end Sorting

/-! ## Enumerations -/

namespace Table

variable {κ α : Type} [LE κ] [LT κ] [DecidableLT κ] [Std.IsLinearOrder κ] [Std.LawfulOrderLT κ]
  {table : Table κ α} {entries : List (κ × α)}

/-- The list enumerates a table: it has every key once, with the answer of the table. -/
structure Enumerates (table : Table κ α) (entries : List (κ × α)) : Prop where
  nodup : (entries.map Prod.fst).Nodup
  mem_iff : ∀ entry, entry ∈ entries ↔ table.find? entry.1 = some entry.2

theorem enumerates_entries (table : Table κ α) : table.Enumerates table.entries :=
  ⟨table.nodup_keys, fun _ => find?_eq_some_iff.symm⟩

namespace Enumerates

omit [Std.IsLinearOrder κ] [Std.LawfulOrderLT κ] [LE κ] in
theorem reverse (h : table.Enumerates entries) : table.Enumerates entries.reverse := by
  refine ⟨?_, fun entry => List.mem_reverse.trans (h.mem_iff entry)⟩
  rw [List.map_reverse, List.nodup_reverse]
  exact h.nodup

/-- An enumeration is the entries in another order. -/
theorem perm (h : table.Enumerates entries) : entries.Perm table.entries := by
  have hentries := table.enumerates_entries
  refine (List.perm_ext_iff_of_nodup (h.nodup.of_map _) (hentries.nodup.of_map _)).mpr fun entry => ?_
  rw [h.mem_iff, hentries.mem_iff]

/-- Sorting an enumeration gives the entries by ascending key. -/
theorem sortOn_eq (h : table.Enumerates entries) : sortOn Prod.fst entries = table.entries :=
  sortOn_eq_of_perm h.perm table.ascending

/-- So it is with the keys alone. -/
theorem sortOn_keys_eq (h : table.Enumerates entries) :
    sortOn id (entries.map Prod.fst) = table.keys :=
  sortOn_eq_of_perm (h.perm.map Prod.fst) table.keys_ascending

end Enumerates

/-- The keys of a table, collected in some order and sorted. -/
def Collects (table : Table κ α) (order : List κ) : Prop :=
  ∃ entries, table.Enumerates entries ∧ order = sortOn id (entries.map Prod.fst)

theorem collects_keys (table : Table κ α) : table.Collects table.keys :=
  ⟨table.entries, table.enumerates_entries, table.enumerates_entries.sortOn_keys_eq.symm⟩

/-- **In whatever order keys are collected, the list is the keys by ascending order.** -/
theorem Collects.eq_keys {order : List κ} (h : table.Collects order) : order = table.keys := by
  obtain ⟨entries, hentries, rfl⟩ := h
  exact hentries.sortOn_keys_eq

end Table

/-- An order of each table of some rules, and the list that is kept of the achievements. -/
structure Enumeration (rules : Ruleset) where
  talents : List (Int × Talent)
  events : List (Int × Event)
  ages : List (Int × AgeSlot)
  achievements : List (Int × Achievement)
  rubrics : List (String × List Level)
  /-- The ids of the achievements, as they were collected at some time. -/
  order : List Int
  enumerates_talents : rules.talents.Enumerates talents
  enumerates_events : rules.events.Enumerates events
  enumerates_ages : rules.ages.Enumerates ages
  enumerates_achievements : rules.achievements.Enumerates achievements
  enumerates_rubrics : rules.rubrics.Enumerates rubrics

namespace Enumeration

variable {rules : Ruleset}

/-- The list of the achievements was collected from their table as it is. -/
def Collected (e : Enumeration rules) : Prop :=
  rules.achievements.Collects e.order

/-- The order of the keys. -/
def ascending (rules : Ruleset) : Enumeration rules where
  talents := rules.talents.entries
  events := rules.events.entries
  ages := rules.ages.entries
  achievements := rules.achievements.entries
  rubrics := rules.rubrics.entries
  order := rules.achievements.keys
  enumerates_talents := rules.talents.enumerates_entries
  enumerates_events := rules.events.enumerates_entries
  enumerates_ages := rules.ages.enumerates_entries
  enumerates_achievements := rules.achievements.enumerates_entries
  enumerates_rubrics := rules.rubrics.enumerates_entries

/-- The tables from their ends, and the list collected from there. -/
def reverse (e : Enumeration rules) : Enumeration rules where
  talents := e.talents.reverse
  events := e.events.reverse
  ages := e.ages.reverse
  achievements := e.achievements.reverse
  rubrics := e.rubrics.reverse
  order := sortOn id (e.achievements.reverse.map Prod.fst)
  enumerates_talents := e.enumerates_talents.reverse
  enumerates_events := e.enumerates_events.reverse
  enumerates_ages := e.enumerates_ages.reverse
  enumerates_achievements := e.enumerates_achievements.reverse
  enumerates_rubrics := e.enumerates_rubrics.reverse

variable (e : Enumeration rules)

/-- Whether a grade has a candidate to replace a talent.  The talents are asked as they come. -/
def hasCandidate (talent grade : Int) : Bool :=
  e.talents.any fun entry =>
    entry.2.grade == grade && !entry.2.exclusive && entry.2.id != talent

/-- The issues of a replacement rule. -/
def replacementIssues (id : Int) (rule : Replacement) : List Lint.Issue :=
  ((rule.grades.map Prod.fst).filter fun grade => !e.hasCandidate id grade).map
    (Lint.Issue.emptyGrade id) ++
  Lint.unknownIds rules.talents (rule.talents.map Prod.fst) (Lint.Issue.unknownReplacement id)

/-- The issues of a talent. -/
def talentIssues (id : Int) (talent : Talent) : List Lint.Issue :=
  talent.condition.toList.flatMap (Lint.conditionIssues .talent id) ++
    Lint.unknownIds rules.talents talent.exclude (Lint.Issue.unknownExclude id) ++
    talent.replacement.toList.flatMap (e.replacementIssues id)

/-- The issues of the rules, each table sorted first. -/
def report : List Lint.Issue :=
  ((sortOn Prod.fst e.talents).flatMap fun entry => e.talentIssues entry.1 entry.2) ++
    ((sortOn Prod.fst e.events).flatMap fun entry => Lint.eventIssues rules entry.1 entry.2) ++
    ((sortOn Prod.fst e.ages).flatMap fun entry => Lint.ageIssues rules entry.1 entry.2) ++
    ((sortOn Prod.fst e.achievements).flatMap fun entry =>
      Lint.achievementIssues entry.1 entry.2) ++
    (sortOn id (e.rubrics.map Prod.fst)).flatMap Lint.rubricIssues

/-- Whether there is a candidate does not depend on who is asked first. -/
theorem hasCandidate_eq (talent grade : Int) :
    e.hasCandidate talent grade = Lint.hasCandidate rules talent grade := by
  rw [hasCandidate, Lint.hasCandidate, Table.values, List.any_map, e.enumerates_talents.perm.any_eq]
  rfl

theorem talentIssues_eq (id : Int) (talent : Talent) :
    e.talentIssues id talent = Lint.talentIssues rules id talent := by
  have hreplacement : e.replacementIssues id = Lint.replacementIssues rules id := by
    funext rule
    rw [replacementIssues, Lint.replacementIssues]
    simp only [hasCandidate_eq]
  rw [talentIssues, Lint.talentIssues, hreplacement]

/-- **The report does not depend on the order of the tables.** -/
theorem report_eq : e.report = Lint.report rules := by
  rw [report, Lint.report, e.enumerates_talents.sortOn_eq, e.enumerates_events.sortOn_eq,
    e.enumerates_ages.sortOn_eq, e.enumerates_achievements.sortOn_eq,
    e.enumerates_rubrics.sortOn_keys_eq]
  simp only [talentIssues_eq]

end Enumeration
end LifeCourse
