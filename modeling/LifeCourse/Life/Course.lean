import LifeCourse.Life.Chain
import LifeCourse.Life.Ledger
import LifeCourse.Life.Request
import LifeCourse.Life.Resolution

/-!
# The course of a life

A life goes year by year.  In a year the clock turns, the talents of the age are
unlocked, every talent that may fires, the age brings a chain of events, and the
achievements are considered.  The year ends the life if an event ends it, if the life is
used up, if the last age is reached, or if the life has had its greatest number of
years.

## Why there is a greatest number of years

Effects may turn the clock back, so reaching the last age is not certain.  A life is
therefore lived in no more than twice as many years as there are ages, and the years are
counted down: `liveYears` is recursion on the years left.

## What a life records

Each year keeps what happened in it and how the life stood after it.  The life keeps how
its talents were settled and how it stood before the first year and at the end.  What a
caller sees is made from this record.
-/

namespace LifeCourse

/-- How a life stands between two years. -/
structure Standing where
  person : Person
  tracker : Tracker
  ledger : Ledger

/-- The standing after a checkpoint. -/
def Standing.check (standing : Standing) (rules : Ruleset) (opportunity : Opportunity) :
    Standing :=
  let (ledger, person) := standing.ledger.check rules opportunity standing.person
  { standing with ledger := ledger, person := person }

/-- A year of a life. -/
structure Year where
  age : Int
  firings : List Firing
  chain : List Link
  /-- The person at the end of the year. -/
  person : Person
  isEnd : Bool
  /-- How the life stands after the achievements of the year. -/
  standing : Standing

/-- Lives one year; `isLast` says that no more are left. -/
def liveYear (rules : Ruleset) (isLast : Bool) (standing : Standing) (source : Source) :
    Year × Source :=
  let person := standing.person.nextYear
  let age := person.current .age
  let slot := rules.ages.find? age
  let (tracker, person) := match slot with
    | some slot => standing.tracker.unlock rules slot.talents person
    | none => (standing.tracker, person)
  let (firings, tracker, person, source) := tracker.activate rules person source
  let (chain, person, source) := match slot with
    | some slot => ageChain rules slot person source
    | none => ([], person, source)
  let isEnd := endsLife chain || person.isDead || person.atTerminalAge || isLast
  let after := Standing.check ⟨person, tracker, standing.ledger⟩ rules .trajectory
  (⟨age, firings, chain, person, isEnd, after⟩, source)

/-- Lives until a year ends the life, or no years are left. -/
def liveYears (rules : Ruleset) : Nat → Standing → Source → List Year × Source
  | 0, _, source => ([], source)
  | left + 1, standing, source =>
    let (year, source) := liveYear rules (left == 0) standing source
    if year.isEnd then ([year], source)
    else
      let (years, source) := liveYears rules left year.standing source
      (year :: years, source)

/-- The greatest number of years of a life. -/
def Settings.maxYears (settings : Settings) : Nat :=
  2 * (settings.terminalAge.toNat + 1)

/-- The record of a life. -/
structure Life where
  resolution : Resolution
  /-- How the life stood before its first year. -/
  opening : Standing
  years : List Year
  /-- How the life stood at its end. -/
  closing : Standing

/-- The standing after the last of some years. -/
def standingAfter (opening : Standing) (years : List Year) : Standing :=
  match years.getLast? with
  | some year => year.standing
  | none => opening

/-- Lives a life whose talents are settled. -/
def liveSettled (rules : Ruleset) (achieved : List (List Int)) (resolution : Resolution)
    (source : Source) : Life × Source :=
  let opening := Standing.check ⟨resolution.person, resolution.tracker, .ofHistory achieved⟩
    rules .start
  let (years, source) := liveYears rules rules.settings.maxYears opening source
  let closing := (standingAfter opening years).check rules .summary
  (⟨resolution, opening, years, closing⟩, source)

/-- Lives the life that a request asks for.  A request that fails draws nothing. -/
def live (rules : Ruleset) (request : Request) (source : Source) :
    Except Failure Life × Source :=
  match resolve rules request.talents (request.person rules.settings) source with
  | .error failure => (.error failure, source)
  | .ok (resolution, source) =>
    let (life, source) := liveSettled rules request.achieved resolution source
    (.ok life, source)

end LifeCourse
