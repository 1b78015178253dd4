import LifeCourse.Life.Session
import LifeCourse.Proofs.Life.Clock
import LifeCourse.Proofs.Life.Extremes

/-!
# The score of a life

The score is made of the highest values of stats.  These are the greatest values that the stats have
in the life (`spans_of_live`), so the score is a number about the whole life and not about its years
as they are shown.

A score is computed in words of 64 bits.  `Person.scoreInWords` checks after each of the additions
and multiplications that the result fits a word.  As long as the highest values fit 32 bits, none
fails the check (`Person.Fits.scoreInWords_eq`).  They do if the values with which the life begins
do, because every change is cut off at the ends of that range.
-/

namespace LifeCourse

variable {rules : Ruleset}

/-! ## Words of 64 bits -/

/-- A result of arithmetic on words of 64 bits, unless it does not fit them. -/
def word? (n : Int) : Option Int :=
  if -signedLimit ≤ n ∧ n < signedLimit then some n else none

/-- The score in words of 64 bits. -/
def Person.scoreInWords (person : Person) : Option Int := do
  let core ← Stat.core.foldlM (fun sum stat => word? (sum + person.highest stat)) 0
  let doubled ← word? (core * 2)
  word? (doubled + (person.highest .age).tdiv 2)

/-- The highest values of the stats fit 32 bits. -/
def Person.Fits (person : Person) : Prop :=
  ∀ stat, Range.InRange (person.highest stat)

theorem word?_eq_some {n : Int} (h : -9223372036854775808 ≤ n) (h' : n < 9223372036854775808) :
    word? n = some n :=
  if_pos ⟨h, h'⟩

namespace Person.Fits

variable {person : Person}

/-- Highest values added up one after another fit 64 bits, if there are not very many. -/
theorem foldlM_word? (h : person.Fits) (stats : List Stat) (sum bound : Int) (hsum : -bound ≤ sum)
    (hsum' : sum ≤ bound) (hbound : bound + 2147483648 * stats.length < 9223372036854775808) :
    stats.foldlM (fun sum stat => word? (sum + person.highest stat)) sum =
        some (sum + (stats.map person.highest).foldr (· + ·) 0) ∧
      -(bound + 2147483648 * stats.length) ≤ sum + (stats.map person.highest).foldr (· + ·) 0 ∧
      sum + (stats.map person.highest).foldr (· + ·) 0 ≤ bound + 2147483648 * stats.length := by
  induction stats generalizing sum bound with
  | nil =>
    rw [List.foldlM_nil, List.map_nil, List.foldr_nil, List.length_nil]
    exact ⟨congrArg some (Int.add_zero sum).symm, by omega, by omega⟩
  | cons stat rest ih =>
    obtain ⟨hleast, hgreatest⟩ := h stat
    unfold Range.least at hleast
    unfold Range.greatest at hgreatest
    rw [List.length_cons] at hbound ⊢
    rw [List.foldlM_cons, List.map_cons, List.foldr_cons, word?_eq_some (by omega) (by omega),
      ← Int.add_assoc]
    obtain ⟨hfold, hlow, hhigh⟩ := ih (sum + person.highest stat) (bound + 2147483648)
      (by omega) (by omega) (by omega)
    exact ⟨hfold, by omega, by omega⟩

/-- **If stats fit 32 bits, the score does not wrap around.** -/
theorem scoreInWords_eq (h : person.Fits) : person.scoreInWords = some person.score := by
  obtain ⟨hcore, hlow, hhigh⟩ := h.foldlM_word? Stat.core 0 0 (by decide) (by decide) (by decide)
  have hlength : (Stat.core.length : Int) = 5 := rfl
  obtain ⟨hage, hage'⟩ := h .age
  unfold Range.least at hage
  unfold Range.greatest at hage'
  have hhalf := Int.mul_tdiv_add_tmod (person.highest .age) 2
  have hrest := Int.tmod_lt_of_pos (person.highest .age) (show (0 : Int) < 2 by decide)
  have hrest' := Int.lt_tmod_of_pos (person.highest .age) (show (0 : Int) < 2 by decide)
  rw [Int.zero_add] at hcore hlow hhigh
  rw [scoreInWords, hcore, score, Int.mul_comm 2]
  show (word? _).bind _ = _
  rw [word?_eq_some (by omega) (by omega)]
  show word? _ = _
  exact word?_eq_some (by omega) (by omega)

/-! ## Stats of 32 bits -/

/-- An age that is brought within the life fits 32 bits if it did before. -/
theorem inRange_withinLife (person : Person) {age : Int} (hage : Range.InRange age) :
    Range.InRange (person.withinLife age) := by
  unfold withinLife
  unfold Range.InRange Range.least Range.greatest at *
  omega

theorem set (h : person.Fits) (stat : Stat) {value : Int} (hvalue : Range.InRange value) :
    (person.set stat value).Fits := by
  intro stat'
  have hhighest := h stat'
  by_cases hself : stat' = stat
  · subst hself
    have hreach : (person.set stat' value).highest stat' = max (person.highest stat') value :=
      congrArg Gauge.highest (person.gauge_set_self stat' value)
    rw [hreach]
    unfold Range.InRange at *
    omega
  · have hother : (person.set stat value).highest stat' = person.highest stat' :=
      congrArg Gauge.highest (person.gauge_set_of_ne value hself)
    rwa [hother]

theorem nextYear (h : person.Fits) : person.nextYear.Fits :=
  h.set .age (inRange_withinLife person (Range.saturate_inRange _))

theorem change (h : person.Fits) (stat : Stat) (amount : Int) :
    (person.change stat amount).Fits := by
  unfold Person.change changed
  split
  · exact h
  · refine h.set stat ?_
    dsimp only
    split
    · exact inRange_withinLife person (Range.saturate_inRange _)
    · exact Range.saturate_inRange _

theorem applyIfAny (h : person.Fits) (effect : Option Effect) (source : Source) :
    (person.applyIfAny effect source).1.Fits :=
  applyIfAny_preserves (fun _ stat amount hq => hq.change stat amount) h effect source

end Person.Fits

/-- No incident brings a stat beyond 32 bits. -/
theorem Incident.Changes.fits {before after : Standing} {incident : Incident}
    (h : incident.Changes rules before after) (hfits : before.person.Fits) : after.person.Fits := by
  cases incident with
  | turn =>
    subst h
    exact hfits.nextYear
  | join id =>
    subst h
    exact hfits
  | fire talent =>
    obtain ⟨-, -, -, source, rfl⟩ := h
    exact hfits.applyIfAny talent.effect source
  | happen id event =>
    obtain ⟨-, source, rfl⟩ := h
    have hrecorded : (before.person.recordEvent id).Fits := hfits
    exact hrecorded.applyIfAny event.effect source
  | achieve achievement =>
    subst h
    exact hfits

/-- The values with which a life begins fit 32 bits. -/
structure Request.Fits (request : Request) (settings : Settings) : Prop where
  initialSpirit : Range.InRange settings.initialSpirit
  initialLife : Range.InRange settings.initialLife
  properties : ∀ entry ∈ request.properties.entries, Range.InRange entry.2

theorem Person.Fits.allocate {person : Person} (h : person.Fits) (stat : Stat) {value : Int}
    (hvalue : Range.InRange value) : (person.allocate stat value).Fits := by
  intro stat'
  by_cases hself : stat' = stat
  · subst hself
    have hstart : (person.allocate stat' value).highest stat' = value :=
      congrArg Gauge.highest (person.gauge_allocate_self stat' value)
    rwa [hstart]
  · have hother : (person.allocate stat value).highest stat' = person.highest stat' :=
      congrArg Gauge.highest (person.gauge_allocate_of_ne value hself)
    rw [hother]
    exact h stat'

theorem Request.Fits.person {request : Request} {settings : Settings}
    (h : request.Fits settings) : (request.person settings).Fits := by
  have hunborn : (Person.unborn settings).Fits := by
    intro stat
    cases stat with
    | spirit => exact h.initialSpirit
    | life => exact h.initialLife
    | age => exact (show Range.InRange (-1) by decide)
    | _ => exact (show Range.InRange 0 by decide)
  rw [Request.person, Person.setHistory_eq]
  exact request.allocate_preserves
    (fun _ stat _ entry hentry hq => hq.allocate stat (h.properties entry hentry)) hunborn

/-! ## The law of the extremes -/

/-- **Extremes and score are exact.**  Whatever operations a person has gone through, the highest and
lowest value of a stat are the greatest and the least of the values that it has had since it was
last started anew, and the present value lies between them.  So it is with the values of a life, those
between two changes of one year included, and its score is twice the greatest core values and half
the greatest age.  Computed in words of 64 bits, the score does not wrap around. -/
theorem extremes_exact :
    (∀ (settings : Settings) (operations : List Operation) (stat : Stat),
      (operations.foldl Operation.run (.unborn settings)).Spans stat
        (Operation.heldEach stat (.unborn settings) [(Person.unborn settings).current stat]
          operations) ∧
      (operations.foldl Operation.run (.unborn settings)).lowest stat ≤
        (operations.foldl Operation.run (.unborn settings)).current stat ∧
      (operations.foldl Operation.run (.unborn settings)).current stat ≤
        (operations.foldl Operation.run (.unborn settings)).highest stat) ∧
    ∀ {rules : Ruleset} {request : Request} {source source' : Source} {life : Life},
      rules.Loaded → live rules request source = (.ok life, source') →
      (∀ stat, life.closing.person.Spans stat (life.held rules request stat)) ∧
      (∃ greatest : Stat → Int,
        (∀ stat, (life.held rules request stat).max? = some (greatest stat)) ∧
        (Session.ofLife rules life).totalScore =
          2 * (greatest .charm + greatest .intelligence + greatest .strength + greatest .money +
            greatest .spirit) + (greatest .age).tdiv 2) ∧
      (request.Fits rules.settings →
        life.closing.person.scoreInWords = some (Session.ofLife rules life).totalScore) := by
  refine ⟨fun settings operations stat => ?_, fun hloaded hlive => ?_⟩
  · have hspans := Operation.spans_foldl_run
      (.of_start (Person.fresh_unborn settings stat)) operations
    exact ⟨hspans, hspans.between⟩
  · have hkeyed := hloaded.coherent.talents
    have hspans := spans_of_live hkeyed hlive
    refine ⟨hspans, ⟨_, fun stat => (hspans stat).highest, ?_⟩, fun hfits => ?_⟩
    · show 2 * _ + _ = _
      simp only [Stat.core, List.map_cons, List.map_nil, List.foldr_cons, List.foldr_nil]
      omega
    · have hclosing := (follows_of_live hkeyed hlive).preserves
        (fun hchanges hbefore => hchanges.fits hbefore) hfits.person
      exact hclosing.scoreInWords_eq

/-- Birth brings a talent that adds five to a core stat and an event that takes them away again.  No
year shows the five, and the score counts them. -/
theorem extremes_exact_growing :
    (growingDraft (.only .charm 5) (.only .charm (-5))).build =
      .ok (growingRules (.only .charm 5) (.only .charm (-5))) ∧
    ∃ life source', live (growingRules (.only .charm 5) (.only .charm (-5))) .empty (.seeded 0) =
        (.ok life, source') ∧
      (Session.ofLife (growingRules (.only .charm 5) (.only .charm (-5))) life).trajectory.map
        (fun entry => entry.properties.get .charm) = [0, 0, 0, 0] ∧
      (life.held (growingRules (.only .charm 5) (.only .charm (-5))) .empty .charm).max? = some 5 ∧
      life.closing.person.scoreInWords = some 21 := by
  have hbuild : (growingDraft (.only .charm 5) (.only .charm (-5))).build =
      .ok (growingRules (.only .charm 5) (.only .charm (-5))) := rfl
  have hlive : ∃ life source',
      live (growingRules (.only .charm 5) (.only .charm (-5))) .empty (.seeded 0) =
        (.ok life, source') ∧
      (Session.ofLife (growingRules (.only .charm 5) (.only .charm (-5))) life).trajectory.map
        (fun entry => entry.properties.get .charm) = [0, 0, 0, 0] ∧
      life.closing.person.highest .charm = 5 ∧
      (Session.ofLife (growingRules (.only .charm 5) (.only .charm (-5))) life).totalScore = 21 :=
    ⟨_, _, rfl, rfl, rfl, rfl⟩
  obtain ⟨life, source', hlive, hshown, hhighest, hscore⟩ := hlive
  have hfits : Request.empty.Fits (growingRules (.only .charm 5) (.only .charm (-5))).settings :=
    ⟨by decide, by decide, fun entry hmem => absurd hmem List.not_mem_nil⟩
  obtain ⟨hspans, -, hwords⟩ := extremes_exact.2 (.build hbuild) hlive
  refine ⟨hbuild, life, source', hlive, hshown, ?_, ?_⟩
  · exact (hspans .charm).highest.trans (congrArg some hhighest)
  · exact (hwords hfits).trans (congrArg some hscore)

end LifeCourse
