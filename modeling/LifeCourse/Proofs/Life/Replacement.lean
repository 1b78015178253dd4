import LifeCourse.Proofs.Draft.Weights
import LifeCourse.Proofs.Life.Settling

/-!
# What a talent may become

A replacement rule offers talents by grade and by name, and most of them are not to be had: they are
exclusive, taken, or do not go with what is taken, or their weight is none with which anything is
drawn.  `Talent.MayBecome` says which ones a talent may become, and says it of one talent at a time.
A draw looks through whole tables instead, puts the offers of a rule together in a list, and thins
this out twice.  It comes to the same: what is drawn is what the talent may become, and nothing is
drawn only if there is nothing of this kind (`drawReplacement_exact`).

## A talent that is alone

The walk of a talent that was selected alone has nothing to heed but its own last place
(`wanders_walk`).  It is a path through the talents, each of which may become the next one, and it
ends only where nothing is to be had or when the steps are used up.

A walk gives each place up that it leaves, so it may come back to where it began.  There it can
begin again, as it did before, and therefore it ends there only with its last step
(`Wanders.length_eq_of_replaceable`).  The talent has then been replaced several times and is in the
life nevertheless, and no replacement is recorded; in every other case exactly one is
(`resolve_alone`).
-/

namespace LifeCourse

variable {rules : Ruleset}

/-! ## What is to be had -/

/-- The rule offers a talent with a weight, by its grade or by its name. -/
inductive Replacement.Offers (rule : Replacement) (next : Talent) (weight : Float) : Prop where
  | grade (h : (next.grade, weight) ∈ rule.grades)
  | name (h : (next.id, weight) ∈ rule.talents)

/-- The talent may be replaced by another one beside those taken. -/
structure Talent.MayBecome (rules : Ruleset) (talent : Talent) (taken : List Int) (next : Talent) :
    Prop where
  known : rules.talents.find? next.id = some next
  other : next.id ≠ talent.id
  common : next.exclusive = false
  free : next.id ∉ taken
  /-- Neither excludes the other. -/
  goes : ∀ id ∈ taken, ∀ held, rules.talents.find? id = some held →
    held.excludes next.id = false ∧ next.excludes held.id = false
  offered : ∃ rule weight, talent.replacement = some rule ∧ rule.Offers next weight ∧
    Source.drawable weight = true

theorem isCandidate_iff {talent next : Talent} {taken : List Int} :
    isCandidate rules talent taken next = true ↔
      next.id ≠ talent.id ∧ next.exclusive = false ∧ next.id ∉ taken ∧
        ∀ id ∈ taken, ∀ held, rules.talents.find? id = some held →
          held.excludes next.id = false ∧ next.excludes held.id = false := by
  rw [isCandidate, Bool.and_eq_true, Bool.and_eq_true, Bool.and_eq_true, Ruleset.not_any_known_iff,
    bne_iff_ne, Bool.not_eq_true', Bool.not_eq_true', List.contains_eq_mem, decide_eq_false_iff_not,
    and_assoc, and_assoc]
  simp only [Talent.conflicts, Bool.or_eq_false_iff]

/-- A rule's candidates are the eligible talents that it offers, each with the weight with which it
does. -/
theorem mem_candidates_iff_offers (hkeyed : rules.talents.Keyed Talent.id) {rule : Replacement}
    {eligible : Talent → Bool} {next : Talent} {weight : Float} :
    (next, weight) ∈ candidates rules rule eligible ↔
      rules.talents.find? next.id = some next ∧ eligible next = true ∧ rule.Offers next weight := by
  rw [mem_candidates_iff]
  constructor
  · rintro ⟨heligible, ⟨hvalue, hgrade⟩ | ⟨id, hfind, hname⟩⟩
    · exact ⟨hkeyed.find?_of_mem_values hvalue, heligible, .grade hgrade⟩
    · obtain rfl := hkeyed id next hfind
      exact ⟨hfind, heligible, .name hname⟩
  · rintro ⟨hfind, heligible, hgrade | hname⟩
    · exact ⟨heligible, .inl ⟨Table.mem_values_iff.mpr ⟨_, hfind⟩, hgrade⟩⟩
    · exact ⟨heligible, .inr ⟨_, hfind, hname⟩⟩

/-- **What can be drawn is what the talent may become.** -/
theorem exists_drawable_iff (hkeyed : rules.talents.Keyed Talent.id) {talent next : Talent}
    {taken : List Int} {rule : Replacement} (hrule : talent.replacement = some rule) :
    (∃ weight, (next, weight) ∈ candidates rules rule (isCandidate rules talent taken) ∧
        Source.drawable weight = true) ↔
      talent.MayBecome rules taken next := by
  constructor
  · rintro ⟨weight, hmem, hdrawable⟩
    obtain ⟨hfind, heligible, hoffers⟩ := (mem_candidates_iff_offers hkeyed).mp hmem
    obtain ⟨hother, hcommon, hfree, hgoes⟩ := isCandidate_iff.mp heligible
    exact ⟨hfind, hother, hcommon, hfree, hgoes, rule, weight, hrule, hoffers, hdrawable⟩
  · rintro ⟨hfind, hother, hcommon, hfree, hgoes, rule', weight, hrule', hoffers, hdrawable⟩
    obtain rfl := Option.some.inj (hrule.symm.trans hrule')
    exact ⟨weight, (mem_candidates_iff_offers hkeyed).mpr
      ⟨hfind, isCandidate_iff.mpr ⟨hother, hcommon, hfree, hgoes⟩, hoffers⟩, hdrawable⟩

/-- A talent without a rule becomes nothing. -/
theorem Talent.not_mayBecome_of_none {talent : Talent} (h : talent.replacement = none)
    (taken : List Int) (next : Talent) : ¬talent.MayBecome rules taken next := by
  rintro ⟨-, -, -, -, -, rule, weight, hrule, -⟩
  rw [h] at hrule
  cases hrule

/-! ## What is drawn -/

/-- What is drawn is what the talent may become. -/
theorem mayBecome_of_drawReplacement (hkeyed : rules.talents.Keyed Talent.id) {talent next : Talent}
    {taken : List Int} {source : Source}
    (h : (drawReplacement rules talent taken source).1 = some next) :
    talent.MayBecome rules taken next := by
  rw [drawReplacement] at h
  split at h
  · cases h
  · rename_i rule hrule
    exact (exists_drawable_iff hkeyed hrule).mp (Source.mem_of_pick_eq_some h)

/-- Nothing is drawn exactly if the talent may become nothing. -/
theorem drawReplacement_eq_none_iff (hkeyed : rules.talents.Keyed Talent.id) {talent : Talent}
    {taken : List Int} {source : Source} :
    (drawReplacement rules talent taken source).1 = none ↔
      ∀ next, ¬talent.MayBecome rules taken next := by
  rw [drawReplacement]
  split
  · rename_i hnone
    exact iff_of_true rfl (talent.not_mayBecome_of_none hnone taken)
  · rename_i rule hrule
    rw [Source.pick_eq_none_iff_forall]
    exact forall_congr' fun next => not_congr (exists_drawable_iff hkeyed hrule)

/-- A draw that yields nothing leaves the source as it was. -/
theorem source_of_drawReplacement_eq_none {talent : Talent} {taken : List Int} {source : Source}
    (h : (drawReplacement rules talent taken source).1 = none) :
    (drawReplacement rules talent taken source).2 = source := by
  rw [drawReplacement] at h ⊢
  split at h
  · rfl
  · exact Source.pick_snd_of_eq_none h

/-- **The draw of a replacement is exact.**  What is drawn is a talent that the other one may
become; nothing is drawn exactly if there is none, and then the source is left as it was.  A talent
that has a rule draws one of a list of options, and those with which something can be drawn are the
talents that it may become, all of them. -/
theorem drawReplacement_exact (hloaded : rules.Loaded) (talent : Talent) (taken : List Int)
    (source : Source) :
    (∀ next, (drawReplacement rules talent taken source).1 = some next →
      talent.MayBecome rules taken next) ∧
    ((drawReplacement rules talent taken source).1 = none ↔
      ¬∃ next, talent.MayBecome rules taken next) ∧
    ((drawReplacement rules talent taken source).1 = none →
      (drawReplacement rules talent taken source).2 = source) ∧
    ∀ rule, talent.replacement = some rule →
      ∃ options, drawReplacement rules talent taken source = source.pick options ∧
        ∀ next, (∃ weight, (next, weight) ∈ options ∧ Source.drawable weight = true) ↔
          talent.MayBecome rules taken next := by
  have hkeyed := hloaded.coherent.talents
  refine ⟨fun next => mayBecome_of_drawReplacement hkeyed, ?_, source_of_drawReplacement_eq_none,
    fun rule hrule => ?_⟩
  · rw [drawReplacement_eq_none_iff hkeyed, not_exists]
  · refine ⟨candidates rules rule (isCandidate rules talent taken), ?_, fun next =>
      exists_drawable_iff hkeyed hrule⟩
    rw [drawReplacement, hrule]

/-! ## One talent that is left -/

/-- A draft of rules in which the first talent is replaced by one of the first grade or by the
sixth, which comes with an infinite weight.  Of the grade one talent is exclusive and one excludes
the seventh. -/
def choosyDraft : Draft where
  talents := [
    ("1", { replacement := some ⟨[("1", 1)], [("6", 1 / 0)]⟩ }),
    ("2", { grade := some 1, exclusive := some true }),
    ("3", { grade := some 1, exclude := some [7] }),
    ("4", { grade := some 1 }),
    ("5", { grade := some 1 }),
    ("6", {}),
    ("7", {})]

/-- The first of the talents. -/
def choosyTalent : Talent :=
  { Talent.ofName 1 "" with replacement := some ⟨[(1, 1)], [(6, 1 / 0)]⟩ }

/-- The rules of the draft. -/
def choosyRules : Ruleset where
  talents := .ofList [
    (1, choosyTalent),
    (2, { Talent.ofName 2 "" with grade := 1, exclusive := true }),
    (3, { Talent.ofName 3 "" with grade := 1, exclude := [7] }),
    (4, { Talent.ofName 4 "" with grade := 1 }),
    (5, { Talent.ofName 5 "" with grade := 1 }),
    (6, .ofName 6 ""),
    (7, .ofName 7 "")]
  events := .empty
  ages := .empty
  achievements := .empty
  rubrics := .empty
  settings := .standard

theorem build_choosyDraft : choosyDraft.build = .ok choosyRules := by
  have hplain : TalentDraft.build "1" {} = .ok (.ofName 1 "") := rfl
  have hrule : ReplacementDraft.build 1 ⟨[("1", 1)], [("6", 1 / 0)]⟩ =
      .ok ⟨[(1, 1)], [(6, 1 / 0)]⟩ :=
    ReplacementDraft.build_of_pairwise (.cons ⟨rfl, rfl⟩ .nil) (.cons ⟨rfl, rfl⟩ .nil)
      (List.pairwise_singleton _ _) (List.pairwise_singleton _ _)
  have hfirst : TalentDraft.build "1" { replacement := some ⟨[("1", 1)], [("6", 1 / 0)]⟩ } =
      .ok choosyTalent := TalentDraft.build_of_replacement {} hplain hrule
  have htalents : buildTable TalentDraft.build Talent.id choosyDraft.talents =
      .ok choosyRules.talents :=
    buildTable_eq_ok_iff.mpr ⟨_, .cons hfirst <| .cons rfl <| .cons rfl <| .cons rfl <| .cons rfl <|
      .cons rfl <| .cons rfl .nil, rfl⟩
  exact Draft.build_eq_ok_iff.mpr ⟨rfl, htalents, rfl, rfl, rfl, rfl⟩

/-- Beside the fifth and the seventh talent nothing is left but the fourth.  Beside that one nothing
is left, and no word is drawn. -/
theorem drawReplacement_exact_choosy :
    choosyDraft.build = .ok choosyRules ∧
    (∃ next, (drawReplacement choosyRules choosyTalent [1, 5, 7] ⟨fun _ => 0, 0⟩).1 = some next ∧
      next.id = 4 ∧ choosyTalent.MayBecome choosyRules [1, 5, 7] next) ∧
    (drawReplacement choosyRules choosyTalent [1, 5, 7, 4] ⟨fun _ => 0, 0⟩).1 = none ∧
    (¬∃ next, choosyTalent.MayBecome choosyRules [1, 5, 7, 4] next) ∧
    (drawReplacement choosyRules choosyTalent [1, 5, 7, 4] ⟨fun _ => 0, 0⟩).2 =
      ⟨fun _ => 0, 0⟩ := by
  have hloaded : choosyRules.Loaded := .build build_choosyDraft
  have hdraw : ∃ next,
      (drawReplacement choosyRules choosyTalent [1, 5, 7] ⟨fun _ => 0, 0⟩).1 = some next ∧
        next.id = 4 := ⟨_, rfl, rfl⟩
  have hnone : (drawReplacement choosyRules choosyTalent [1, 5, 7, 4] ⟨fun _ => 0, 0⟩).1 = none :=
    rfl
  obtain ⟨next, hnext, hid⟩ := hdraw
  obtain ⟨hlegal, -⟩ := drawReplacement_exact hloaded choosyTalent [1, 5, 7] ⟨fun _ => 0, 0⟩
  obtain ⟨-, hnothing, hsource, -⟩ :=
    drawReplacement_exact hloaded choosyTalent [1, 5, 7, 4] ⟨fun _ => 0, 0⟩
  exact ⟨build_choosyDraft, ⟨next, hnext, hid, hlegal next hnext⟩, hnone, hnothing.mp hnone,
    hsource hnone⟩

/-! ## A talent that is alone -/

/-- There is a talent that the talent may become when it is alone. -/
def Talent.Replaceable (rules : Ruleset) (talent : Talent) : Prop :=
  ∃ next, talent.MayBecome rules [talent.id] next

/-- What a lone talent becomes one after another in some steps, or in fewer if it becomes one that
is not replaceable. -/
inductive Wanders (rules : Ruleset) : Nat → Talent → List Talent → Prop where
  | spent (talent : Talent) : Wanders rules 0 talent []
  | stay {steps : Nat} {talent : Talent} (h : ¬talent.Replaceable rules) :
      Wanders rules (steps + 1) talent []
  | step {steps : Nat} {talent next : Talent} {path : List Talent}
      (h : talent.MayBecome rules [talent.id] next) (rest : Wanders rules steps next path) :
      Wanders rules (steps + 1) talent (next :: path)

/-- **The walk of a lone talent wanders.**  With each step its old place is given up and the new one
taken, so the last place is all that is ever taken. -/
theorem wanders_walk (hkeyed : rules.talents.Keyed Talent.id) (steps : Nat) (talent : Talent)
    (source : Source) :
    Wanders rules steps talent (walk rules steps talent [talent.id] source).1 := by
  induction steps generalizing talent source with
  | zero => exact .spent talent
  | succ steps ih =>
    rw [walk]
    split
    · rename_i source' hdraw
      refine .stay ?_
      rintro ⟨next, hnext⟩
      exact (drawReplacement_eq_none_iff hkeyed).mp (congrArg Prod.fst hdraw) next hnext
    · rename_i next source' hdraw
      have hplace : [talent.id].filter (· != talent.id) ++ [next.id] = [next.id] := by simp
      simp only [hplace]
      exact .step (mayBecome_of_drawReplacement hkeyed (congrArg Prod.fst hdraw)) (ih next source')

/-- A walk that has a step begins with what is drawn. -/
theorem head?_walk {steps : Nat} (hsteps : 1 ≤ steps) (talent : Talent) (taken : List Int)
    (source : Source) :
    (walk rules steps talent taken source).1.head? = (drawReplacement rules talent taken source).1 := by
  cases steps with
  | zero => omega
  | succ steps =>
    rw [walk]
    split
    · rename_i source' hdraw
      rw [hdraw, List.head?_nil]
    · rename_i next source' hdraw
      rw [hdraw, List.head?_cons]

namespace Wanders

variable {steps : Nat} {talent : Talent} {path : List Talent}

/-- It comes to talents of the ruleset. -/
theorem known (h : Wanders rules steps talent path) :
    ∀ next ∈ path, rules.talents.find? next.id = some next := by
  induction h with
  | spent => exact fun _ hmem => absurd hmem List.not_mem_nil
  | stay => exact fun _ hmem => absurd hmem List.not_mem_nil
  | step hnext _ ih => exact List.forall_mem_cons.mpr ⟨hnext.known, ih⟩

/-- It ends early only with a talent that is not replaceable. -/
theorem length_eq_of_replaceable (h : Wanders rules steps talent path)
    (hlast : (path.getLast?.getD talent).Replaceable rules) : path.length = steps := by
  induction h with
  | spent => rfl
  | stay hnot => exact absurd hlast hnot
  | step _ _ ih =>
    rw [List.getLast?_cons, Option.getD_some] at hlast
    rw [List.length_cons, ih hlast]

/-- A talent that is not replaceable stays where it is. -/
theorem eq_nil (h : Wanders rules steps talent path) (hnot : ¬talent.Replaceable rules) :
    path = [] := by
  cases h with
  | spent => rfl
  | stay => rfl
  | step hnext _ => exact absurd ⟨_, hnext⟩ hnot

/-- **A replaceable talent leaves for another one, or comes back with the last step.** -/
theorem cases_of_replaceable (h : Wanders rules steps talent path) (hsteps : 1 ≤ steps)
    (hfind : rules.talents.find? talent.id = some talent) (hmay : talent.Replaceable rules) :
    ∃ target, path.getLast? = some target ∧
      (target.id ≠ talent.id ∨ target = talent ∧ path.length = steps) := by
  cases hlast : path.getLast? with
  | none =>
    have hlength := h.length_eq_of_replaceable (by rw [hlast]; exact hmay)
    rw [List.getLast?_eq_none_iff.mp hlast, List.length_nil] at hlength
    omega
  | some target =>
    refine ⟨target, rfl, ?_⟩
    by_cases hsame : target.id = talent.id
    · have hknown := h.known target (List.mem_of_getLast? hlast)
      rw [hsame, hfind] at hknown
      obtain rfl := Option.some.inj hknown
      exact .inr ⟨rfl, h.length_eq_of_replaceable (by rw [hlast]; exact hmay)⟩
    · exact .inl hsame

end Wanders

/-! ## One survivor -/

namespace Resolution

variable {resolution : Resolution} {settling : Settling}

theorem talents_of_singleton (h : resolution.settlings = [settling]) :
    resolution.talents = [settling.target.id] := by
  rw [talents, h, List.map_singleton]

theorem replacements_of_singleton_of_eq (h : resolution.settlings = [settling])
    (hsame : settling.target.id = settling.survivor.id) : resolution.replacements = [] := by
  have hnone : settling.replacement? = none := by
    rw [Settling.replacement?, if_pos hsame]
  rw [replacements, h, List.filterMap_cons_none hnone, List.filterMap_nil]

theorem replacements_of_singleton_of_ne (h : resolution.settlings = [settling])
    (hother : settling.target.id ≠ settling.survivor.id) :
    resolution.replacements = [(settling.survivor.info, settling.target.info)] := by
  have hsome : settling.replacement? = some (settling.survivor.info, settling.target.info) := by
    rw [Settling.replacement?, if_neg hother]
  rw [replacements, h, List.filterMap_cons_some hsome, List.filterMap_nil]

end Resolution

/-- A survivor whose condition holds makes a walk of as many steps as there may be. -/
theorem settle_of_holds {survivor : Talent} {state : SettlingState}
    (h : survivor.holds state.person.lookup = true) :
    (settle rules survivor state).1.survivor = survivor ∧
      (settle rules survivor state).1.path =
        (walk rules rules.settings.maxChainDepth survivor state.taken state.source).1 := by
  rw [settle, if_pos h]
  exact ⟨rfl, rfl⟩

/-- A talent that is selected alone survives, and its walk begins at its own place. -/
theorem exists_walk_of_singleton {talent : Talent}
    (hfind : rules.talents.find? talent.id = some talent) {person : Person}
    (hholds : talent.holds person.lookup = true) (source : Source) :
    ∃ settling resolution source',
      resolve rules [talent.id] person source = .ok (resolution, source') ∧
      resolution.settlings = [settling] ∧ settling.survivor = talent ∧
      settling.path = (walk rules rules.settings.maxChainDepth talent [talent.id] source).1 := by
  have hselect : rules.select [talent.id] = .ok [talent] :=
    select_eq_ok_iff.mpr (.cons hfind .nil)
  obtain ⟨hsurvivor, hpath⟩ :=
    @settle_of_holds rules talent ⟨[talent.id], .empty, person, source⟩ hholds
  rw [resolve, hselect]
  exact ⟨_, _, _, rfl, rfl, hsurvivor, hpath⟩

/-- A talent that is selected alone wanders. -/
theorem resolve_singleton (hkeyed : rules.talents.Keyed Talent.id) {talent : Talent}
    (hfind : rules.talents.find? talent.id = some talent) {person : Person}
    (hholds : talent.holds person.lookup = true) (source : Source) :
    ∃ settling resolution source',
      resolve rules [talent.id] person source = .ok (resolution, source') ∧
      resolution.settlings = [settling] ∧ settling.survivor = talent ∧
      Wanders rules rules.settings.maxChainDepth talent settling.path := by
  obtain ⟨settling, resolution, source', hresolve, hsingle, hsurvivor, hpath⟩ :=
    exists_walk_of_singleton hfind hholds source
  have hwanders := wanders_walk hkeyed rules.settings.maxChainDepth talent source
  rw [← hpath] at hwanders
  exact ⟨settling, resolution, source', hresolve, hsingle, hsurvivor, hwanders⟩

/-- **How a talent is settled that is alone.**  If it is not replaceable, it is the one that is
settled, and no replacement is recorded.  If it is, then either it wanders to another talent, which
is settled, and exactly this replacement is recorded; or it comes back to itself with the last of
the steps that there may be, is settled, and no replacement is recorded. -/
theorem resolve_alone (hloaded : rules.Loaded) {talent : Talent}
    (hfind : rules.talents.find? talent.id = some talent) {person : Person}
    (hholds : talent.holds person.lookup = true) (source : Source) :
    ∃ path resolution source',
      resolve rules [talent.id] person source = .ok (resolution, source') ∧
      Wanders rules rules.settings.maxChainDepth talent path ∧
      (¬talent.Replaceable rules →
        path = [] ∧ resolution.talents = [talent.id] ∧ resolution.replacements = []) ∧
      (talent.Replaceable rules →
        (∃ target, path.getLast? = some target ∧ target.id ≠ talent.id ∧
          resolution.talents = [target.id] ∧
          resolution.replacements = [(talent.info, target.info)]) ∨
        path.getLast? = some talent ∧ path.length = rules.settings.maxChainDepth ∧
          resolution.talents = [talent.id] ∧ resolution.replacements = []) := by
  obtain ⟨settling, resolution, source', hresolve, hsingle, rfl, hwanders⟩ :=
    resolve_singleton hloaded.coherent.talents hfind hholds source
  have htalents := Resolution.talents_of_singleton hsingle
  refine ⟨settling.path, resolution, source', hresolve, hwanders, fun hnot => ?_, fun hmay => ?_⟩
  · have hnil := hwanders.eq_nil hnot
    have htarget : settling.target = settling.survivor := by
      rw [Settling.target, hnil]
      rfl
    rw [htarget] at htalents
    exact ⟨hnil, htalents, Resolution.replacements_of_singleton_of_eq hsingle (by rw [htarget])⟩
  · obtain ⟨target, hlast, hcases⟩ :=
      hwanders.cases_of_replaceable hloaded.coherent.settings.maxChainDepth hfind hmay
    have htarget : settling.target = target := by
      rw [Settling.target, hlast, Option.getD_some]
    rcases hcases with hother | ⟨rfl, hlength⟩
    · have hrecord := Resolution.replacements_of_singleton_of_ne hsingle (by rwa [htarget])
      rw [htarget] at htalents hrecord
      exact .inl ⟨target, hlast, hother, htalents, hrecord⟩
    · rw [htarget] at htalents
      exact .inr ⟨hlast, hlength, htalents,
        Resolution.replacements_of_singleton_of_eq hsingle (by rw [htarget])⟩

/-! ## Talents that become each other -/

/-- A draft of a talent that is replaced by the one of a name. -/
def becomingDraft (name : String) : TalentDraft :=
  { replacement := some ⟨[], [(name, 1)]⟩ }

/-- The talent of an id that is replaced by the one of another id. -/
def becoming (id next : Int) : Talent :=
  { Talent.ofName id "" with replacement := some ⟨[], [(next, 1)]⟩ }

theorem build_becomingDraft {key name : String} {id next : Int}
    (hplain : TalentDraft.build key {} = .ok (.ofName id ""))
    (hnext : IsSpelled (name, 1) (next, 1)) :
    TalentDraft.build key (becomingDraft name) = .ok (becoming id next) :=
  TalentDraft.build_of_replacement {} hplain <| ReplacementDraft.build_of_pairwise
    .nil (.cons hnext .nil) .nil (List.pairwise_singleton _ _)

/-- A draft of rules in which the first talent becomes the second, which becomes the third; and the
fourth and the fifth become each other. -/
def metamorphicDraft : Draft where
  talents := [("1", becomingDraft "2"), ("2", becomingDraft "3"), ("3", {}),
    ("4", becomingDraft "5"), ("5", becomingDraft "4")]

/-- The rules of the draft. -/
def metamorphicRules : Ruleset where
  talents := .ofList [(1, becoming 1 2), (2, becoming 2 3), (3, .ofName 3 ""), (4, becoming 4 5),
    (5, becoming 5 4)]
  events := .empty
  ages := .empty
  achievements := .empty
  rubrics := .empty
  settings := .standard

theorem build_metamorphicDraft : metamorphicDraft.build = .ok metamorphicRules := by
  have htalents : buildTable TalentDraft.build Talent.id metamorphicDraft.talents =
      .ok metamorphicRules.talents :=
    buildTable_eq_ok_iff.mpr ⟨_, .cons (build_becomingDraft rfl ⟨rfl, rfl⟩) <|
      .cons (build_becomingDraft rfl ⟨rfl, rfl⟩) <| .cons rfl <|
      .cons (build_becomingDraft rfl ⟨rfl, rfl⟩) <| .cons (build_becomingDraft rfl ⟨rfl, rfl⟩) .nil,
      rfl⟩
  exact Draft.build_eq_ok_iff.mpr ⟨rfl, htalents, rfl, rfl, rfl, rfl⟩

/-- The first talent of `metamorphicRules` becomes the third, by way of the second, and one
replacement is recorded. -/
theorem resolve_alone_metamorphic :
    metamorphicDraft.build = .ok metamorphicRules ∧
    (becoming 1 2).Replaceable metamorphicRules ∧
    ∃ (target : Talent) (resolution : Resolution) (source' : Source),
      resolve metamorphicRules [1] (.unborn .standard) (.seeded 0) = .ok (resolution, source') ∧
      target.id = 3 ∧ resolution.talents = [target.id] ∧
      resolution.replacements = [((becoming 1 2).info, target.info)] := by
  have hloaded : metamorphicRules.Loaded := .build build_metamorphicDraft
  have hdraw : ∃ next, (drawReplacement metamorphicRules (becoming 1 2) [1] (.seeded 0)).1 =
      some next := ⟨_, rfl⟩
  have htalents : ∃ resolution source',
      resolve metamorphicRules [1] (.unborn .standard) (.seeded 0) = .ok (resolution, source') ∧
        resolution.talents = [3] := ⟨_, _, rfl, rfl⟩
  obtain ⟨next, hnext⟩ := hdraw
  have hmay : (becoming 1 2).Replaceable metamorphicRules :=
    ⟨next, mayBecome_of_drawReplacement hloaded.coherent.talents hnext⟩
  obtain ⟨resolution, source', hresolve, hthird⟩ := htalents
  obtain ⟨path, resolution', source'', hresolve', -, -, hcases⟩ :=
    @resolve_alone _ hloaded (becoming 1 2) rfl (.unborn .standard) rfl (.seeded 0)
  obtain ⟨rfl, -⟩ := Prod.mk.inj (Except.ok.inj (hresolve.symm.trans hresolve'))
  obtain ⟨target, -, -, htarget, hrecord⟩ | ⟨-, -, hself, -⟩ := hcases hmay
  · have hid : target.id = 3 := List.head_eq_of_cons_eq (htarget.symm.trans hthird)
    exact ⟨build_metamorphicDraft, hmay, target, resolution, source', hresolve, hid, htarget,
      hrecord⟩
  · exact absurd (hself.symm.trans hthird) (by decide)

/-- So it is not true that a replaceable talent that is alone is recorded as replaced by another one
that is settled: the fourth talent of `metamorphicRules` becomes the fifth and itself again in
turns, for eight steps. -/
theorem exists_resolve_alone_unrecorded :
    ¬∀ (rules : Ruleset) (talent : Talent) (person : Person) (source : Source),
      rules.Loaded → rules.talents.find? talent.id = some talent →
        talent.holds person.lookup = true → talent.Replaceable rules →
          ∃ (target : Talent) (resolution : Resolution) (source' : Source),
            resolve rules [talent.id] person source = .ok (resolution, source') ∧
            target.id ≠ talent.id ∧ resolution.talents = [target.id] ∧
            resolution.replacements = [(talent.info, target.info)] := by
  intro hrecorded
  have hloaded : metamorphicRules.Loaded := .build build_metamorphicDraft
  have hdraw : ∃ next, (drawReplacement metamorphicRules (becoming 4 5) [4] (.seeded 0)).1 =
      some next := ⟨_, rfl⟩
  have hnone : ∃ resolution source',
      resolve metamorphicRules [4] (.unborn .standard) (.seeded 0) = .ok (resolution, source') ∧
        resolution.replacements = [] := ⟨_, _, rfl, rfl⟩
  obtain ⟨next, hnext⟩ := hdraw
  obtain ⟨resolution, source', hresolve, hnil⟩ := hnone
  obtain ⟨target, resolution', source'', hresolve', -, -, hrecord⟩ :=
    hrecorded metamorphicRules (becoming 4 5) (.unborn .standard) (.seeded 0) hloaded rfl rfl
      ⟨next, mayBecome_of_drawReplacement hloaded.coherent.talents hnext⟩
  obtain ⟨rfl, -⟩ := Prod.mk.inj (Except.ok.inj (hresolve.symm.trans hresolve'))
  exact absurd (hnil.symm.trans hrecord) (List.cons_ne_nil _ _).symm

end LifeCourse
