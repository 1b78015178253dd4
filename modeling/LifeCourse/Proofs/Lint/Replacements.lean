import LifeCourse.Lint.Report
import LifeCourse.Proofs.Life.Replacement
import LifeCourse.Proofs.Rules.References

/-!
# Replacement rules of which nothing is reported

The report looks at every entry of a replacement rule.  Of a grade it asks whether there is a talent
that could replace the one with the rule (`Talent.CouldBecome`), and of a name whether there is a
talent at all.  A draw asks for more: the weight must be one with which something is drawn, a talent
that is named must be one that could replace the other, and the two must go with each other.

## What the report passes over

An entry may therefore be of no use although nothing is reported, and `Talent.GradeIdle` and
`Talent.NameIdle` are the reasons for it.  There are no others: where no warning is about a talent
that is alone, its rule draws exactly if some entry is not idle (`drawReplacement_of_unwarned`).

Each reason can be met.  The entries of `idleRules idleNames` are idle for all of them, so that
nothing is ever drawn there, and the report on these rules is empty (`exists_unwarned_of_no_draw`).
-/

namespace LifeCourse

variable {rules : Ruleset}

/-! ## What an issue is about -/

namespace Lint

/-- The entity that an issue is about. -/
def Issue.subject? : Issue → Option Reference
  | malformedCondition kind id _ _ => some ⟨kind, id⟩
  | unknownExclude talent _ => some ⟨.talent, talent⟩
  | emptyGrade talent _ => some ⟨.talent, talent⟩
  | unknownReplacement talent _ => some ⟨.talent, talent⟩
  | unknownBranch event _ => some ⟨.event, event⟩
  | unknownFollowUp event _ => some ⟨.event, event⟩
  | unknownPoolEvent age _ => some ⟨.age, age⟩
  | neverDrawn age _ _ => some ⟨.age, age⟩
  | unknownUnlock age _ => some ⟨.age, age⟩
  | neverChecked achievement => some ⟨.achievement, achievement⟩
  | unusedRubric _ => none

/-- No warning of the report is about the entity. -/
def Unwarned (rules : Ruleset) (reference : Reference) : Prop :=
  ∀ issue ∈ report rules, issue.severity = .warning → issue.subject? ≠ some reference

/-- An empty report warns of nothing. -/
theorem Unwarned.of_report_eq_nil (h : report rules = []) (reference : Reference) :
    Unwarned rules reference := by
  rw [Unwarned, h]
  exact fun _ hmem => absurd hmem List.not_mem_nil

/-- What is found in a replacement rule is reported. -/
theorem mem_report_of_mem_replacementIssues {id : Int} {talent : Talent}
    (hfind : rules.talents.find? id = some talent) {rule : Replacement}
    (hrule : talent.replacement = some rule) {issue : Issue}
    (hissue : issue ∈ replacementIssues rules id rule) : issue ∈ report rules := by
  have htalent : issue ∈ talentIssues rules id talent := by
    rw [talentIssues, hrule]
    exact List.mem_append_right _ (List.mem_flatMap.mpr ⟨rule, List.mem_singleton_self rule, hissue⟩)
  have hentry : (id, talent) ∈ rules.talents.entries := Table.find?_eq_some_iff.mp hfind
  simp only [report, List.mem_append]
  exact .inl (.inl (.inl (.inl (List.mem_flatMap.mpr ⟨_, hentry, htalent⟩))))

end Lint

/-! ## What the report asks for -/

/-- As far as the other talent goes, the talent could be replaced by it. -/
structure Talent.CouldBecome (rules : Ruleset) (talent next : Talent) : Prop where
  known : rules.talents.find? next.id = some next
  other : next.id ≠ talent.id
  common : next.exclusive = false

namespace Lint

theorem hasCandidate_iff (hkeyed : rules.talents.Keyed Talent.id) {talent : Talent} {grade : Int} :
    hasCandidate rules talent.id grade = true ↔
      ∃ next, talent.CouldBecome rules next ∧ next.grade = grade := by
  simp only [hasCandidate, List.any_eq_true, Bool.and_eq_true, beq_iff_eq, bne_iff_ne,
    Bool.not_eq_true']
  constructor
  · rintro ⟨next, hvalue, ⟨hgrade, hcommon⟩, hother⟩
    exact ⟨next, ⟨hkeyed.find?_of_mem_values hvalue, hother, hcommon⟩, hgrade⟩
  · rintro ⟨next, ⟨hknown, hother, hcommon⟩, hgrade⟩
    exact ⟨next, Table.mem_values_iff.mpr ⟨_, hknown⟩, ⟨hgrade, hcommon⟩, hother⟩

namespace Unwarned

variable {talent : Talent} {rule : Replacement} (h : Unwarned rules ⟨.talent, talent.id⟩)
  (hfind : rules.talents.find? talent.id = some talent) (hrule : talent.replacement = some rule)
include h hfind hrule

/-- Each grade has a talent by which the one with the rule could be replaced. -/
theorem exists_of_mem_grades (hkeyed : rules.talents.Keyed Talent.id) :
    ∀ entry ∈ rule.grades, ∃ next, talent.CouldBecome rules next ∧ next.grade = entry.1 := by
  intro entry hentry
  rw [← hasCandidate_iff hkeyed]
  by_contra hnone
  refine h (.emptyGrade talent.id entry.1) ?_ rfl rfl
  refine mem_report_of_mem_replacementIssues hfind hrule (List.mem_append_left _ ?_)
  refine List.mem_map_of_mem (List.mem_filter.mpr ⟨List.mem_map_of_mem hentry, ?_⟩)
  rw [Bool.not_eq_true', Bool.eq_false_iff]
  exact hnone

/-- Each name is that of a talent. -/
theorem exists_of_mem_talents :
    ∀ entry ∈ rule.talents, ∃ next, rules.talents.find? entry.1 = some next := by
  intro entry hentry
  rw [← Option.isSome_iff_exists, Option.isSome_iff_ne_none]
  intro hnone
  refine h (.unknownReplacement talent.id entry.1) ?_ rfl rfl
  refine mem_report_of_mem_replacementIssues hfind hrule (List.mem_append_right _ ?_)
  refine List.mem_map_of_mem (List.mem_filter.mpr ⟨List.mem_map_of_mem hentry, ?_⟩)
  rw [hnone, Option.isNone_none]

end Unwarned
end Lint

/-! ## What the report passes over -/

/-- Why a grade of which nothing is reported is of no use to a talent that is alone. -/
inductive Talent.GradeIdle (rules : Ruleset) (talent : Talent) (grade : Int) (weight : Float) :
    Prop where
  /-- Nothing is drawn with the weight. -/
  | weight (h : Source.drawable weight = false)
  /-- The talent goes with none of the talents by which it could be replaced. -/
  | conflict (hsome : ∃ next, talent.CouldBecome rules next ∧ next.grade = grade)
      (h : ∀ next, talent.CouldBecome rules next → next.grade = grade → talent.conflicts next = true)

/-- Why a name of which nothing is reported is of no use to a talent that is alone. -/
inductive Talent.NameIdle (rules : Ruleset) (talent : Talent) (id : Int) (weight : Float) :
    Prop where
  /-- Nothing is drawn with the weight. -/
  | weight (h : Source.drawable weight = false)
  /-- The talent names itself. -/
  | itself (h : id = talent.id)
  /-- The talent that is named is exclusive. -/
  | exclusive {next : Talent} (hfind : rules.talents.find? id = some next)
      (h : next.exclusive = true)
  /-- The talent that is named does not go with the other. -/
  | conflict {next : Talent} (hfind : rules.talents.find? id = some next)
      (h : talent.conflicts next = true)

namespace Talent

variable {talent : Talent}

/-- What a talent may become when it is alone: only the two count. -/
theorem mayBecome_singleton_iff (hfind : rules.talents.find? talent.id = some talent)
    {rule : Replacement} (hrule : talent.replacement = some rule) {next : Talent} :
    talent.MayBecome rules [talent.id] next ↔
      talent.CouldBecome rules next ∧ talent.conflicts next = false ∧
        ∃ weight, rule.Offers next weight ∧ Source.drawable weight = true := by
  constructor
  · rintro ⟨hknown, hother, hcommon, -, hgoes, rule', weight, hrule', hoffers, hdrawable⟩
    obtain rfl := Option.some.inj (hrule.symm.trans hrule')
    refine ⟨⟨hknown, hother, hcommon⟩, ?_, weight, hoffers, hdrawable⟩
    rw [conflicts, Bool.or_eq_false_iff]
    exact hgoes talent.id (List.mem_singleton_self _) talent hfind
  · rintro ⟨⟨hknown, hother, hcommon⟩, hgoes, weight, hoffers, hdrawable⟩
    refine ⟨hknown, hother, hcommon, mt List.mem_singleton.mp hother, ?_, rule, weight, hrule,
      hoffers, hdrawable⟩
    intro id hid held hheld
    rw [List.mem_singleton.mp hid, hfind] at hheld
    obtain rfl := Option.some.inj hheld
    rwa [conflicts, Bool.or_eq_false_iff] at hgoes

theorem not_gradeIdle_iff {grade : Int} {weight : Float}
    (hsome : ∃ next, talent.CouldBecome rules next ∧ next.grade = grade) :
    ¬talent.GradeIdle rules grade weight ↔
      Source.drawable weight = true ∧
        ∃ next, talent.CouldBecome rules next ∧ next.grade = grade ∧
          talent.conflicts next = false := by
  constructor
  · intro hnot
    refine ⟨eq_true_of_ne_false (mt .weight hnot), ?_⟩
    by_contra hnone
    refine hnot (.conflict hsome fun next hcould hgrade => ?_)
    exact eq_true_of_ne_false fun hgoes => hnone ⟨next, hcould, hgrade, hgoes⟩
  · rintro ⟨hdrawable, next, hcould, hgrade, hgoes⟩ (hweight | ⟨-, hconflict⟩)
    · rw [hdrawable] at hweight
      cases hweight
    · rw [hconflict next hcould hgrade] at hgoes
      cases hgoes

theorem not_nameIdle_iff (hkeyed : rules.talents.Keyed Talent.id) {id : Int} {weight : Float}
    (hsome : ∃ next, rules.talents.find? id = some next) :
    ¬talent.NameIdle rules id weight ↔
      Source.drawable weight = true ∧
        ∃ next, talent.CouldBecome rules next ∧ next.id = id ∧ talent.conflicts next = false := by
  constructor
  · intro hnot
    obtain ⟨next, hfind⟩ := hsome
    obtain rfl := hkeyed id next hfind
    refine ⟨eq_true_of_ne_false (mt .weight hnot), next, ⟨hfind, mt .itself hnot, ?_⟩, rfl, ?_⟩
    · exact eq_false_of_ne_true (mt (.exclusive hfind) hnot)
    · exact eq_false_of_ne_true (mt (.conflict hfind) hnot)
  · rintro ⟨hdrawable, next, ⟨hknown, hother, hcommon⟩, rfl, hgoes⟩ hidle
    cases hidle with
    | weight hweight =>
      rw [hdrawable] at hweight
      cases hweight
    | itself hself => exact hother hself
    | exclusive hfind hexclusive =>
      obtain rfl := Option.some.inj (hknown.symm.trans hfind)
      rw [hcommon] at hexclusive
      cases hexclusive
    | conflict hfind hconflict =>
      obtain rfl := Option.some.inj (hknown.symm.trans hfind)
      rw [hgoes] at hconflict
      cases hconflict

/-- **A rule of which nothing is reported has something to offer exactly if some entry is not
idle.** -/
theorem replaceable_iff_of_unwarned (hkeyed : rules.talents.Keyed Talent.id)
    (hfind : rules.talents.find? talent.id = some talent) {rule : Replacement}
    (hrule : talent.replacement = some rule)
    (hunwarned : Lint.Unwarned rules ⟨.talent, talent.id⟩) :
    talent.Replaceable rules ↔
      (∃ entry ∈ rule.grades, ¬talent.GradeIdle rules entry.1 entry.2) ∨
        ∃ entry ∈ rule.talents, ¬talent.NameIdle rules entry.1 entry.2 := by
  have hgrades := hunwarned.exists_of_mem_grades hfind hrule hkeyed
  have hnames := hunwarned.exists_of_mem_talents hfind hrule
  simp only [Replaceable, mayBecome_singleton_iff hfind hrule]
  constructor
  · rintro ⟨next, hcould, hgoes, weight, hgrade | hname, hdrawable⟩
    · exact .inl ⟨_, hgrade, (not_gradeIdle_iff (hgrades _ hgrade)).mpr
        ⟨hdrawable, next, hcould, rfl, hgoes⟩⟩
    · exact .inr ⟨_, hname, (not_nameIdle_iff hkeyed (hnames _ hname)).mpr
        ⟨hdrawable, next, hcould, rfl, hgoes⟩⟩
  · rintro (⟨⟨grade, weight⟩, hentry, hnot⟩ | ⟨⟨id, weight⟩, hentry, hnot⟩)
    · obtain ⟨hdrawable, next, hcould, rfl, hgoes⟩ :=
        (not_gradeIdle_iff (hgrades _ hentry)).mp hnot
      exact ⟨next, hcould, hgoes, weight, .grade hentry, hdrawable⟩
    · obtain ⟨hdrawable, next, hcould, rfl, hgoes⟩ :=
        (not_nameIdle_iff hkeyed (hnames _ hentry)).mp hnot
      exact ⟨next, hcould, hgoes, weight, .name hentry, hdrawable⟩

end Talent

/-- **How far a clean report can be trusted.**  Let a talent without a condition have a replacement
rule, and let no warning of the report be about it.  Then each grade of the rule has a talent by which
it could be replaced, and each name is that of a talent.  Alone it draws a replacement, whatever the
source is, exactly if some entry of the rule is not idle; and if it is selected alone, what it draws
is the first talent that it becomes. -/
theorem drawReplacement_of_unwarned (hloaded : rules.Loaded) {talent : Talent} {rule : Replacement}
    (hfind : rules.talents.find? talent.id = some talent) (hcondition : talent.condition = none)
    (hrule : talent.replacement = some rule)
    (hunwarned : Lint.Unwarned rules ⟨.talent, talent.id⟩) (person : Person) (source : Source) :
    (∀ entry ∈ rule.grades, ∃ next, talent.CouldBecome rules next ∧ next.grade = entry.1) ∧
    (∀ entry ∈ rule.talents, ∃ next, rules.talents.find? entry.1 = some next) ∧
    ((drawReplacement rules talent [talent.id] source).1 ≠ none ↔
      (∃ entry ∈ rule.grades, ¬talent.GradeIdle rules entry.1 entry.2) ∨
        ∃ entry ∈ rule.talents, ¬talent.NameIdle rules entry.1 entry.2) ∧
    ∃ settling resolution source',
      resolve rules [talent.id] person source = .ok (resolution, source') ∧
      resolution.settlings = [settling] ∧ settling.survivor = talent ∧
      settling.path.head? = (drawReplacement rules talent [talent.id] source).1 := by
  have hkeyed := hloaded.coherent.talents
  refine ⟨hunwarned.exists_of_mem_grades hfind hrule hkeyed,
    hunwarned.exists_of_mem_talents hfind hrule, ?_, ?_⟩
  · rw [← Talent.replaceable_iff_of_unwarned hkeyed hfind hrule hunwarned, Ne,
      drawReplacement_eq_none_iff hkeyed, ← not_exists, not_not, Talent.Replaceable]
  · have hholds : talent.holds person.lookup = true := by
      rw [Talent.holds, hcondition]
      rfl
    obtain ⟨settling, resolution, source', hresolve, hsingle, hsurvivor, hpath⟩ :=
      exists_walk_of_singleton hfind hholds source
    refine ⟨settling, resolution, source', hresolve, hsingle, hsurvivor, ?_⟩
    rw [hpath, head?_walk hloaded.coherent.settings.maxChainDepth]

/-! ## Entries that are all of no use -/

/-- A draft of rules in which the first talent is replaced by one of the first grade or of some names.
The one talent of this grade is the fourth, which the first one excludes; and the third is
exclusive. -/
def idleDraft (names : List (String × Float)) : Draft where
  talents := [
    ("1", { exclude := some [4], replacement := some ⟨[("1", 1)], names⟩ }),
    ("2", {}),
    ("3", { exclusive := some true }),
    ("4", { grade := some 1 }),
    ("5", {})]

/-- The first of the talents. -/
def idleTalent (names : List (Int × Float)) : Talent :=
  { Talent.ofName 1 "" with exclude := [4], replacement := some ⟨[(1, 1)], names⟩ }

/-- The rules of the draft. -/
def idleRules (names : List (Int × Float)) : Ruleset where
  talents := .ofList [
    (1, idleTalent names),
    (2, .ofName 2 ""),
    (3, { Talent.ofName 3 "" with exclusive := true }),
    (4, { Talent.ofName 4 "" with grade := 1 }),
    (5, .ofName 5 "")]
  events := .empty
  ages := .empty
  achievements := .empty
  rubrics := .empty
  settings := .standard

theorem build_idleDraft {drafts : List (String × Float)} {names : List (Int × Float)}
    (hspelled : List.Forall₂ IsSpelled drafts names)
    (hsorted : names.Pairwise fun a b => a.1 ≤ b.1) :
    (idleDraft drafts).build = .ok (idleRules names) := by
  have hplain : TalentDraft.build "1" { exclude := some [4] } =
      .ok { Talent.ofName 1 "" with exclude := [4] } := rfl
  have hrule : ReplacementDraft.build 1 ⟨[("1", 1)], drafts⟩ = .ok ⟨[(1, 1)], names⟩ :=
    ReplacementDraft.build_of_pairwise (.cons ⟨rfl, rfl⟩ .nil) hspelled
      (List.pairwise_singleton _ _) hsorted
  have hfirst : TalentDraft.build "1"
      { exclude := some [4], replacement := some ⟨[("1", 1)], drafts⟩ } = .ok (idleTalent names) :=
    TalentDraft.build_of_replacement { exclude := some [4] } hplain hrule
  have htalents : buildTable TalentDraft.build Talent.id (idleDraft drafts).talents =
      .ok (idleRules names).talents :=
    buildTable_eq_ok_iff.mpr ⟨_, .cons hfirst <| .cons rfl <| .cons rfl <| .cons rfl <|
      .cons rfl .nil, rfl⟩
  exact Draft.build_eq_ok_iff.mpr ⟨rfl, htalents, rfl, rfl, rfl, rfl⟩

/-- Names of which nothing is reported, each of no use for another reason: the talent names itself,
one with no weight, one that is exclusive and one that does not go with it. -/
def idleNames : List (Int × Float) :=
  [(1, 1), (2, 0), (3, 1), (4, 1)]

/-- With a fifth name that is of use the first talent becomes another one. -/
theorem drawReplacement_of_unwarned_fifth :
    (idleDraft [("1", 1), ("2", 0), ("3", 1), ("4", 1), ("5", 2)]).build =
      .ok (idleRules (idleNames ++ [(5, 2)])) ∧
    Lint.Unwarned (idleRules (idleNames ++ [(5, 2)])) ⟨.talent, 1⟩ ∧
    ∀ (person : Person) (source : Source), ∃ settling resolution source' next,
      resolve (idleRules (idleNames ++ [(5, 2)])) [1] person source = .ok (resolution, source') ∧
      resolution.settlings = [settling] ∧ settling.path.head? = some next := by
  have hbuild : (idleDraft [("1", 1), ("2", 0), ("3", 1), ("4", 1), ("5", 2)]).build =
      .ok (idleRules (idleNames ++ [(5, 2)])) :=
    build_idleDraft (.cons ⟨rfl, rfl⟩ <| .cons ⟨rfl, rfl⟩ <| .cons ⟨rfl, rfl⟩ <|
      .cons ⟨rfl, rfl⟩ <| .cons ⟨rfl, rfl⟩ .nil) (by decide)
  have hloaded : (idleRules (idleNames ++ [(5, 2)])).Loaded := .build hbuild
  have hunwarned : Lint.Unwarned (idleRules (idleNames ++ [(5, 2)])) ⟨.talent, 1⟩ :=
    .of_report_eq_nil rfl _
  refine ⟨hbuild, hunwarned, fun person source => ?_⟩
  obtain ⟨-, -, hdraws, settling, resolution, source', hresolve, hsingle, -, hhead⟩ :=
    @drawReplacement_of_unwarned _ hloaded (idleTalent (idleNames ++ [(5, 2)])) _ rfl rfl rfl
      hunwarned person source
  have hfifth : ¬(idleTalent (idleNames ++ [(5, 2)])).NameIdle
      (idleRules (idleNames ++ [(5, 2)])) 5 2 :=
    (Talent.not_nameIdle_iff hloaded.coherent.talents ⟨_, rfl⟩).mpr
      ⟨by decide, .ofName 5 "", ⟨rfl, by decide, rfl⟩, rfl, rfl⟩
  obtain ⟨next, hnext⟩ := Option.ne_none_iff_exists'.mp
    (hdraws.mpr (.inr ⟨(5, 2), List.mem_append_right _ (List.mem_singleton_self _), hfifth⟩))
  exact ⟨settling, resolution, source', next, hresolve, hsingle, hhead.trans hnext⟩

/-- So it is not true that a talent without a condition, with entries in its replacement rule and
without a warning draws a replacement when it is alone: of the entries of `idleRules idleNames` none
is of use, and the report on these rules is empty. -/
theorem exists_unwarned_of_no_draw :
    ¬∀ (rules : Ruleset) (talent : Talent) (rule : Replacement) (source : Source),
      rules.Loaded → rules.talents.find? talent.id = some talent → talent.condition = none →
        talent.replacement = some rule → (rule.grades ≠ [] ∨ rule.talents ≠ []) →
          Lint.Unwarned rules ⟨.talent, talent.id⟩ →
            (drawReplacement rules talent [talent.id] source).1 ≠ none := by
  intro hdraws
  have hbuild : (idleDraft [("1", 1), ("2", 0), ("3", 1), ("4", 1)]).build =
      .ok (idleRules idleNames) :=
    build_idleDraft (.cons ⟨rfl, rfl⟩ <| .cons ⟨rfl, rfl⟩ <| .cons ⟨rfl, rfl⟩ <|
      .cons ⟨rfl, rfl⟩ .nil) (by decide)
  have hreport : Lint.report (idleRules idleNames) = [] := rfl
  have hnone : (drawReplacement (idleRules idleNames) (idleTalent idleNames) [1]
      (.seeded 0)).1 = none := rfl
  exact hdraws (idleRules idleNames) (idleTalent idleNames) _ (.seeded 0) (.build hbuild) rfl rfl rfl
    (.inl (List.cons_ne_nil _ _)) (.of_report_eq_nil hreport _) hnone

end LifeCourse
