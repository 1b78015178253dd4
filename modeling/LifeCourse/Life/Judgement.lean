import LifeCourse.Number.Decimal
import LifeCourse.Person
import LifeCourse.Rules.Ruleset

/-!
# Judging a life

After a life the highest values of its stats and its score are graded by the rubrics of
the ruleset.  A judgement also says how far the value is on the way to what counts as
full progress, as a number between 0 and 1 and as a bar of ten segments.

Thresholds fit 32 bits while a score may not; it is compared as the nearest number that
does.
-/

namespace LifeCourse

/-! ## Progress -/

/-- The number of segments of a progress bar. -/
def barWidth : Nat := 10

/-- A number brought between 0 and 1. -/
def unitInterval (x : Float) : Float :=
  let x := if x < 0 then 0 else x
  if 1 < x then 1 else x

/-- A bar with as many filled segments as ten times the progress, rounded; a half is
rounded up. -/
def progressBar (progress : Float) : String :=
  let progress := if progress.isFinite then unitInterval progress else 0
  let filled := min (progress * barWidth.toFloat).round.toUInt64.toNat barWidth
  String.ofList (List.replicate filled '█' ++ List.replicate (barWidth - filled) '░')

/-- The part of full progress that a value is. -/
def progressOf (value scale : Int) : Float :=
  unitInterval (Decimal.ofWhole value / Decimal.ofWhole scale)

/-! ## Judgements -/

/-- A graded value. -/
structure Judgement where
  code : String
  value : Int
  grade : Int
  text : String
  progress : Float

/-- The bar of a judgement. -/
def Judgement.bar (judgement : Judgement) : String :=
  progressBar judgement.progress

/-- The judgement of a value, if there is a rubric and the value meets a threshold. -/
def judge (rules : Ruleset) (code : String) (value : Int) : Option Judgement := do
  let levels ← rules.rubric? code
  let level ← classify levels (Range.saturate value)
  return {
    code := code
    value := value
    grade := level.grade
    text := level.text
    progress := progressOf value (rules.settings.progressScaleFor code) }

/-- What is judged: the highest values of the judged stats, then the score. -/
def judgedValues (person : Person) : List (String × Int) :=
  (Stat.judged.map fun stat => (stat.code, person.highest stat)) ++
    [(Ruleset.scoreCode, person.score)]

/-- The judgements of a life. -/
def judgeAll (rules : Ruleset) (person : Person) : List Judgement :=
  (judgedValues person).filterMap fun judged => judge rules judged.1 judged.2

/-- What is said of a life as a whole. -/
structure Summary where
  score : Int
  judgements : List Judgement
  talents : List Info

/-- The summary of a life that began with some talents. -/
def summarize (rules : Ruleset) (person : Person) (talents : List Int) : Summary :=
  ⟨person.score, judgeAll rules person, (rules.known talents).map Talent.info⟩

end LifeCourse
