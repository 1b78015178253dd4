import LifeCourse.Life.Judgement
import LifeCourse.Proofs.Rules.Coherence

/-!
# One ruleset over another

Of two rulesets laid over each other each table answers as the upper one does, and as the lower one
does where the upper one has no answer.  So an overlay wins every look-up of an entity that it
defines.

## Rubrics have two names

A rubric is looked for under two keys, the code of a stat with an `H` in front and the code itself,
and tables are laid over each other key by key.  The four places in which a rubric may stand are
therefore asked in the order of `rubric?_merge`, and a base that uses the first name comes before an
overlay that uses the second: the base masks the overlay (`Ruleset.Masks`).  This is the only way in
which an overlay may fail to win (`lookups_merge`).
-/

namespace LifeCourse
namespace Ruleset

/-- The base judges a stat under the key that is asked first, and the overlay judges it otherwise
and under the other key only. -/
structure Masks (base overlay : Ruleset) (code : String) : Prop where
  lacks : overlay.rubrics.find? (highestKey code) = none
  differ : ∃ masking masked, base.rubrics.find? (highestKey code) = some masking ∧
    overlay.rubrics.find? code = some masked ∧ masking ≠ masked

/-- **The order in which rubrics are asked for.**  The key comes before the layer: only under one
key does the overlay come before the base. -/
theorem rubric?_merge (base overlay : Ruleset) (code : String) :
    (base.merge overlay).rubric? code =
      ((overlay.rubrics.find? (highestKey code)).or (base.rubrics.find? (highestKey code))).or
        ((overlay.rubrics.find? code).or (base.rubrics.find? code)) := by
  rw [rubric?, merge, Table.find?_merge, Table.find?_merge]

/-- Of four answers the two in the middle may change places, unless both are given and differ and
the first one is not given. -/
theorem or_exchange_iff {α : Type} (a b c d : Option α) :
    (a.or b).or (c.or d) = (a.or c).or (b.or d) ↔
      ¬(a = none ∧ ∃ x y, b = some x ∧ c = some y ∧ x ≠ y) := by
  cases a with
  | some _ => simp
  | none =>
    cases b with
    | none => simp
    | some x =>
      cases c with
      | none => simp
      | some y => simp

/-- **An overlay wins the rubrics that the base does not mask.** -/
theorem rubric?_merge_eq_iff (base overlay : Ruleset) (code : String) :
    (base.merge overlay).rubric? code = (overlay.rubric? code).or (base.rubric? code) ↔
      ¬base.Masks overlay code := by
  rw [rubric?_merge, rubric?, rubric?, or_exchange_iff]
  exact not_congr ⟨fun ⟨lacks, differ⟩ => ⟨lacks, differ⟩, fun h => ⟨h.lacks, h.differ⟩⟩

/-- **What an overlay wins.**  With the overlay laid over the base, every talent, event, age and
achievement is the overlay's if it has one and else the base's.  So is every rubric, except where
the base masks the overlay, and there it is not. -/
theorem lookups_merge (base overlay : Ruleset) :
    (∀ id, (base.merge overlay).talents.find? id =
      (overlay.talents.find? id).or (base.talents.find? id)) ∧
    (∀ id, (base.merge overlay).events.find? id =
      (overlay.events.find? id).or (base.events.find? id)) ∧
    (∀ age, (base.merge overlay).ages.find? age =
      (overlay.ages.find? age).or (base.ages.find? age)) ∧
    (∀ id, (base.merge overlay).achievements.find? id =
      (overlay.achievements.find? id).or (base.achievements.find? id)) ∧
    ∀ code, (base.merge overlay).rubric? code = (overlay.rubric? code).or (base.rubric? code) ↔
      ¬base.Masks overlay code :=
  ⟨Table.find?_merge base.talents overlay.talents, Table.find?_merge base.events overlay.events,
    Table.find?_merge base.ages overlay.ages,
    Table.find?_merge base.achievements overlay.achievements, rubric?_merge_eq_iff base overlay⟩

/-! ## A masked rubric -/

/-- A draft with one rubric of one level, which every number from zero on meets. -/
def rubricDraft (key text : String) : Draft where
  rubrics := [(key, [⟨⟨0, by decide⟩, 1, some text⟩])]

/-- The rules of that draft. -/
def rubricRules (key text : String) : Ruleset :=
  { standard with rubrics := .ofList [(key, [⟨⟨0, by decide⟩, 1, text⟩])] }

theorem build_rubricDraft (key text : String) :
    (rubricDraft key text).build = .ok (rubricRules key text) :=
  Draft.build_of_level key _

/-- An overlay judges charm and yet does not win: the base judges it under the key that is asked
first, and the life is graded in the words of the base. -/
theorem exists_rubric?_merge_ne :
    (rubricRules "HCHR" "old").Loaded ∧ (rubricRules "CHR" "new").Loaded ∧
    ((rubricRules "CHR" "new").rubric? "CHR").isSome = true ∧
    ((rubricRules "HCHR" "old").merge (rubricRules "CHR" "new")).rubric? "CHR" ≠
      ((rubricRules "CHR" "new").rubric? "CHR").or ((rubricRules "HCHR" "old").rubric? "CHR") ∧
    (judge ((rubricRules "HCHR" "old").merge (rubricRules "CHR" "new")) "CHR" 5).map
      Judgement.text = some "old" := by
  refine ⟨.build (build_rubricDraft _ _), .build (build_rubricDraft _ _), rfl, fun h => ?_, rfl⟩
  have htexts := congrArg (Option.map (List.map Level.text)) h
  exact absurd htexts (by decide)

end Ruleset
end LifeCourse
