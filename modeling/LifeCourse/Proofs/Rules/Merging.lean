import LifeCourse.Proofs.Life.Enumerated
import LifeCourse.Proofs.Rules.Representation

/-!
# Layers in any grouping

Overlays are laid over a ruleset one after another.  Instead, some of them may be laid over each
other first and the outcome over the rest, in any way that keeps their order.  A `Grouping` is one
such way: a binary tree with the layers at its leaves, the lowest one first.  What it comes to
depends on the layers alone (`Grouping.merged_eq_of_layers_eq`), and a layer over itself changes
nothing (`Ruleset.merge_self`).

## Which order counts and which does not

Of two layers the upper one counts wherever it has an answer, so the layers may not change places.
That they may be grouped at will is the associativity of "the first answer that is given", key by
key; a table is determined by its answers, so nothing has to be said about how its entries came
together.

The list of the achievements, kept beside the tables and collected anew whenever one ruleset is laid
over another, is the only thing that is not a table.  It fits the tables however often it was
collected, and so it agrees too.  Neither does it matter in which order the tables of the two
outcomes are enumerated, which may well differ: the report and every life are the same
(`Ruleset.Alike`).
-/

namespace LifeCourse

/-! ## Three tables, and one table twice -/

namespace Table

variable {κ α : Type} [LE κ] [LT κ] [DecidableLT κ] [Std.IsLinearOrder κ] [Std.LawfulOrderLT κ]
  [DecidableEq κ]

/-- The uppermost of three answers counts, whichever two tables come together first. -/
theorem merge_assoc (a b c : Table κ α) : (a.merge b).merge c = a.merge (b.merge c) := by
  refine ext_find? fun k => ?_
  rw [find?_merge, find?_merge, find?_merge, find?_merge, Option.or_assoc]

/-- A table over itself has no new answer. -/
theorem merge_self (a : Table κ α) : a.merge a = a := by
  refine ext_find? fun k => ?_
  rw [find?_merge, Option.or_self]

end Table

namespace Ruleset

/-- **Laying rulesets over each other is associative.** -/
theorem merge_assoc (a b c : Ruleset) : (a.merge b).merge c = a.merge (b.merge c) := by
  unfold merge
  simp only [Table.merge_assoc]

/-- **A ruleset over itself is as it was.** -/
theorem merge_self (a : Ruleset) : a.merge a = a := by
  unfold merge
  simp only [Table.merge_self]

/-- The list of the achievements is known from the tables. -/
theorem Arises.eq_keys {rules : Ruleset} {order : List Int} (h : rules.Arises order) :
    order = rules.achievements.keys :=
  h.collects.eq_keys

end Ruleset

/-! ## Groupings -/

/-- Layers that are laid over each other in some grouping, the lower ones first. -/
inductive Grouping where
  | single (rules : Ruleset)
  | laid (lower upper : Grouping)

namespace Grouping

/-- The layers from the lowest to the highest. -/
def layers : Grouping → List Ruleset
  | single rules => [rules]
  | laid lower upper => lower.layers ++ upper.layers

/-- What a grouping comes to. -/
def merged : Grouping → Ruleset
  | single rules => rules
  | laid lower upper => lower.merged.merge upper.merged

/-- A grouping over a ruleset is its layers over the ruleset, one after another. -/
theorem foldl_merge_layers (g : Grouping) (base : Ruleset) :
    g.layers.foldl Ruleset.merge base = base.merge g.merged := by
  induction g generalizing base with
  | single rules => rfl
  | laid lower upper ihlower ihupper =>
    rw [layers, List.foldl_append, ihlower, ihupper, Ruleset.merge_assoc]
    rfl

/-- **Every grouping comes to its layers laid over the lowest one, one after another.** -/
theorem exists_layers_eq (g : Grouping) :
    ∃ lowest rest, g.layers = lowest :: rest ∧ g.merged = rest.foldl Ruleset.merge lowest := by
  induction g with
  | single rules => exact ⟨rules, [], rfl, rfl⟩
  | laid lower upper ihlower _ =>
    obtain ⟨lowest, rest, hlayers, hmerged⟩ := ihlower
    refine ⟨lowest, rest ++ upper.layers, ?_, ?_⟩
    · rw [layers, hlayers, List.cons_append]
    · rw [merged, hmerged, List.foldl_append, foldl_merge_layers]

/-- **The layers say what a grouping comes to.** -/
theorem merged_eq_of_layers_eq {g g' : Grouping} (h : g.layers = g'.layers) :
    g.merged = g'.merged := by
  obtain ⟨lowest, rest, hlayers, hmerged⟩ := g.exists_layers_eq
  obtain ⟨lowest', rest', hlayers', hmerged'⟩ := g'.exists_layers_eq
  rw [hlayers, hlayers'] at h
  obtain ⟨rfl, rfl⟩ := List.cons.inj h
  rw [hmerged, hmerged']

/-- Layers that can come about come to something that can. -/
theorem arises_merged {g : Grouping} (h : ∀ rules ∈ g.layers, ∃ order, rules.Arises order) :
    g.merged.Arises g.merged.achievements.keys := by
  induction g with
  | single rules =>
    obtain ⟨order, harises⟩ := h rules (List.mem_singleton_self rules)
    rw [merged, ← harises.eq_keys]
    exact harises
  | laid lower upper ihlower ihupper =>
    have hlower := ihlower fun rules hmem => h rules (List.mem_append_left _ hmem)
    have hupper := ihupper fun rules hmem => h rules (List.mem_append_right _ hmem)
    exact .merge hlower hupper (Table.collects_keys _)

end Grouping

/-! ## What agrees -/

/-- Two ways to the same rules: tables and settings are equal, one list of achievements belongs to
both, and neither look-ups nor reports nor lives tell them apart, in whatever orders the tables of
either are enumerated and the list was collected. -/
structure Ruleset.Alike (a b : Ruleset) : Prop where
  equal : a = b
  order : ∃ order, ∀ order', (a.Arises order' ↔ order' = order) ∧ (b.Arises order' ↔ order' = order)
  talents : ∀ id, a.talents.find? id = b.talents.find? id
  events : ∀ id, a.events.find? id = b.events.find? id
  ages : ∀ age, a.ages.find? age = b.ages.find? age
  achievements : ∀ id, a.achievements.find? id = b.achievements.find? id
  rubrics : ∀ code, a.rubric? code = b.rubric? code
  report : ∀ (e : Enumeration a) (e' : Enumeration b), e.report = e'.report
  session : ∀ (e : Enumeration a) (e' : Enumeration b), e.Collected → e'.Collected →
    ∀ (request : Request) (source : Source),
      e.simulateWith request source = e'.simulateWith request source
  seeded : ∀ (request : Request) (atHand : Source),
    simulate a request atHand = simulate b request atHand

/-- Rules that came about are alike if they are equal. -/
theorem Ruleset.Arises.alike {a b : Ruleset} {order : List Int} (h : a.Arises order) (heq : a = b) :
    a.Alike b := by
  subst heq
  have hkeyed := h.loaded.coherent.talents
  refine
    { equal := rfl
      order := ⟨order, fun order' => ⟨?_, ?_⟩⟩
      talents := fun _ => rfl
      events := fun _ => rfl
      ages := fun _ => rfl
      achievements := fun _ => rfl
      rubrics := fun _ => rfl
      report := fun e e' => ?_
      session := fun e e' he he' request source => ?_
      seeded := fun _ _ => rfl }
  · exact ⟨fun h' => h'.eq_keys.trans h.eq_keys.symm, fun h' => h' ▸ h⟩
  · exact ⟨fun h' => h'.eq_keys.trans h.eq_keys.symm, fun h' => h' ▸ h⟩
  · rw [e.report_eq, e'.report_eq]
  · rw [e.simulateWith_eq hkeyed he, e'.simulateWith_eq hkeyed he']

/-- **Merging is associative and idempotent.**  Of three rulesets it does not matter which two come
together first, and a ruleset over itself is as it was: with all that can be asked of rules.  Hence
layers may be grouped at will. -/
theorem regrouped_alike :
    (∀ (a b c : Ruleset) (i j k : List Int), a.Arises i → b.Arises j → c.Arises k →
      ((a.merge b).merge c).Alike (a.merge (b.merge c))) ∧
    (∀ (a : Ruleset) (i : List Int), a.Arises i → (a.merge a).Alike a) ∧
    ∀ g g' : Grouping, (∀ rules ∈ g.layers, ∃ order, rules.Arises order) →
      g.layers = g'.layers → g.merged.Alike g'.merged := by
  refine ⟨fun a b c i j k ha hb hc => ?_, fun a i ha => ?_, fun g g' harises hlayers => ?_⟩
  · have hmerged : (a.merge b).Arises (a.merge b).achievements.keys :=
      .merge ha hb (Table.collects_keys _)
    exact (Ruleset.Arises.merge hmerged hc (Table.collects_keys _)).alike (Ruleset.merge_assoc a b c)
  · exact (Ruleset.Arises.merge ha ha (Table.collects_keys _)).alike (Ruleset.merge_self a)
  · exact (Grouping.arises_merged harises).alike (Grouping.merged_eq_of_layers_eq hlayers)

/-! ## Three values with ids in common -/

/-- A value with one achievement and some talents with their names. -/
def layerValue (achievement : String) (talents : List (String × String)) : Document.Json :=
  .object [
    (some "achievements", .object [(some achievement, .object [(some "condition", .text "")])]),
    (some "talents", .object (talents.map fun talent =>
      (some talent.1, .object [(some "name", .text talent.2)])))]

/-- Every two of three layers have a talent in common.  The two overlays are laid over each other
first: each talent is the one of the uppermost layer that has it, and the achievements are listed by
ascending id although every layer brings one that comes before those below it. -/
theorem regrouped_alike_overlaid :
    ∃ base first second : Ruleset,
      Ruleset.ofValue (layerValue "7" [("1", "a"), ("2", "a")]) = .ok base ∧
      Ruleset.ofValue (layerValue "5" [("2", "b"), ("3", "b")]) = .ok first ∧
      Ruleset.ofValue (layerValue "2" [("3", "c"), ("1", "c")]) = .ok second ∧
      ((base.merge first).merge second).Arises [2, 5, 7] ∧
      ((base.merge first).merge second).Alike (base.merge (first.merge second)) ∧
      (base.merge base).Alike base ∧
      (Grouping.laid (.single base) (.laid (.single first) (.single second))).merged.Alike
        (Grouping.laid (.laid (.single base) (.single first)) (.single second)).merged ∧
      (base.merge (first.merge second)).talents.values.map Talent.name = ["c", "b", "c"] := by
  have hread : ∃ base first second : Ruleset,
      Ruleset.ofValue (layerValue "7" [("1", "a"), ("2", "a")]) = .ok base ∧
      Ruleset.ofValue (layerValue "5" [("2", "b"), ("3", "b")]) = .ok first ∧
      Ruleset.ofValue (layerValue "2" [("3", "c"), ("1", "c")]) = .ok second ∧
      ((base.merge first).merge second).achievements.keys = [2, 5, 7] ∧
      (base.merge (first.merge second)).talents.values.map Talent.name = ["c", "b", "c"] :=
    ⟨_, _, _, rfl, rfl, rfl, rfl, rfl⟩
  obtain ⟨base, first, second, hbase, hfirst, hsecond, hkeys, hnames⟩ := hread
  have harises : ∀ {value rules}, Ruleset.ofValue value = .ok rules →
      rules.Arises rules.achievements.keys :=
    fun hvalue => .read (.value _ hvalue) (Table.collects_keys _)
  have horder := ((base.merge first).merge second).achievements.collects_keys
  rw [hkeys] at horder
  obtain ⟨hassoc, hself, hgroup⟩ := regrouped_alike
  refine ⟨base, first, second, hbase, hfirst, hsecond, ?_, ?_, ?_, ?_, hnames⟩
  · exact .merge (.merge (harises hbase) (harises hfirst) (Table.collects_keys _))
      (harises hsecond) horder
  · exact hassoc _ _ _ _ _ _ (harises hbase) (harises hfirst) (harises hsecond)
  · exact hself _ _ (harises hbase)
  · refine hgroup _ _ (fun rules hmem => ?_) rfl
    rcases List.mem_cons.mp hmem with rfl | hmem
    · exact ⟨_, harises hbase⟩
    · rcases List.mem_cons.mp hmem with rfl | hmem
      · exact ⟨_, harises hfirst⟩
      · obtain rfl := List.mem_singleton.mp hmem
        exact ⟨_, harises hsecond⟩

end LifeCourse
