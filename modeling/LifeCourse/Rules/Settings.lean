import LifeCourse.Number.Range
import LifeCourse.Table

/-!
# Settings

The numbers that belong to no entity: how a life starts, when it must end, how far a
chain may go, and how results are scaled and paged.

The terminal age fits 32 bits like every age, and the type says so: a clock that stops
at the end of the range can then still reach it.
-/

namespace LifeCourse

/-- The numbers of a ruleset that belong to no entity. -/
structure Settings where
  terminalAge : Int
  terminalAge_le : terminalAge ≤ Range.greatest
  initialSpirit : Int
  initialLife : Int
  /-- How many events a chain, and how many steps a replacement, may have. -/
  maxChainDepth : Nat
  /-- The value that counts as full progress. -/
  progressScale : Int
  /-- The same for single stats, by code. -/
  progressScales : Table String Int
  pageSize : Nat

namespace Settings

/-- The settings of a document that gives none. -/
def standard : Settings where
  terminalAge := 100
  terminalAge_le := by decide
  initialSpirit := 5
  initialLife := 1
  maxChainDepth := 8
  progressScale := 10
  progressScales := .empty
  pageSize := 50

/-- The value of a stat that counts as full progress; a scale of its own counts only if
it is positive. -/
def progressScaleFor (settings : Settings) (code : String) : Int :=
  ((settings.progressScales.find? code).filter fun scale => 0 < scale).getD settings.progressScale

/-- Settings with which every life is well defined. -/
structure Valid (settings : Settings) : Prop where
  terminalAge : 0 ≤ settings.terminalAge
  progressScale : 0 < settings.progressScale
  pageSize : 1 ≤ settings.pageSize
  maxChainDepth : 1 ≤ settings.maxChainDepth

theorem valid_standard : Valid standard := by
  constructor <;> decide

end Settings
end LifeCourse
