import LifeCourse.Condition.Expr
import LifeCourse.Random.Source
import LifeCourse.Rules.Settings
import LifeCourse.Stat

/-!
# Persons

A person is the state of a life: the seven stats, each with the highest and lowest value
it has had, and what the life has gathered so far.  Conditions ask for all of it by
name (`Person.lookup`).

## Gauges

A gauge is a stat with its extremes.  Every change of a stat goes through `Gauge.reach`,
so the extremes cannot miss a value; only `allocate`, which is used before the life
begins, starts a gauge anew.

## The clock

Age counts from -1, the year before birth.  A change of age by an effect and the turn of
a year keep it between 0 and the terminal age.
-/

namespace LifeCourse

/-- The value of a stat with the highest and lowest value it has had. -/
structure Gauge where
  current : Int
  highest : Int
  lowest : Int
  deriving DecidableEq, Repr

namespace Gauge

/-- A gauge that has had one value. -/
def start (value : Int) : Gauge :=
  ⟨value, value, value⟩

/-- The gauge when its stat has a new value. -/
def reach (gauge : Gauge) (value : Int) : Gauge :=
  ⟨value, max gauge.highest value, min gauge.lowest value⟩

/-- Values reached one after another: the highest is the greatest of all of them. -/
theorem highest_foldl_reach (values : List Int) (gauge : Gauge) :
    (values.foldl reach gauge).highest = values.foldl max gauge.highest := by
  induction values generalizing gauge with
  | nil => rfl
  | cons value rest ih => exact ih (gauge.reach value)

/-- Values reached one after another: the lowest is the least of all of them. -/
theorem lowest_foldl_reach (values : List Int) (gauge : Gauge) :
    (values.foldl reach gauge).lowest = values.foldl min gauge.lowest := by
  induction values generalizing gauge with
  | nil => rfl
  | cons value rest ih => exact ih (gauge.reach value)

end Gauge

/-- The state of a life. -/
structure Person where
  terminalAge : Int
  gauges : PerStat Gauge
  talents : List Int
  events : List Int
  achievements : List Int
  /-- How many lives there were before this one. -/
  lives : Int
  deriving DecidableEq, Repr

/-- The list with a member added at its end, unless it is one already. -/
def addNew (id : Int) (ids : List Int) : List Int :=
  if ids.contains id then ids else ids ++ [id]

theorem mem_addNew {id other : Int} {ids : List Int} :
    other ∈ addNew id ids ↔ other ∈ ids ∨ other = id := by
  unfold addNew
  split
  · rename_i h
    have hid : id ∈ ids := by simpa using h
    constructor
    · exact Or.inl
    · rintro (h | rfl)
      · exact h
      · exact hid
  · simp

theorem addNew_of_not_mem {id : Int} {ids : List Int} (h : id ∉ ids) : addNew id ids = ids ++ [id] := by
  have hcontains : ids.contains id = false := by simpa using h
  rw [addNew, hcontains]
  rfl

namespace Person

/-- A person one year before birth. -/
def unborn (settings : Settings) : Person where
  terminalAge := settings.terminalAge
  gauges := .tabulate fun
    | .spirit => .start settings.initialSpirit
    | .life => .start settings.initialLife
    | .age => .start (-1)
    | _ => .start 0
  talents := []
  events := []
  achievements := []
  lives := 0

/-- The present value of a stat. -/
def current (person : Person) (stat : Stat) : Int :=
  (person.gauges.get stat).current

/-- The highest value a stat has had. -/
def highest (person : Person) (stat : Stat) : Int :=
  (person.gauges.get stat).highest

/-- The lowest value a stat has had. -/
def lowest (person : Person) (stat : Stat) : Int :=
  (person.gauges.get stat).lowest

/-! ## Stats -/

/-- The person with a stat given a value before the life begins. -/
def allocate (person : Person) (stat : Stat) (value : Int) : Person :=
  { person with gauges := person.gauges.set stat (.start value) }

/-- The person with a new value of a stat. -/
def set (person : Person) (stat : Stat) (value : Int) : Person :=
  { person with gauges := person.gauges.set stat ((person.gauges.get stat).reach value) }

@[simp] theorem gauge_allocate_self (person : Person) (stat : Stat) (value : Int) :
    (person.allocate stat value).gauges.get stat = .start value :=
  PerStat.get_set_self _ _ _

theorem gauge_allocate_of_ne (person : Person) {stat stat' : Stat} (value : Int)
    (h : stat' ≠ stat) :
    (person.allocate stat value).gauges.get stat' = person.gauges.get stat' :=
  PerStat.get_set_of_ne _ _ h

@[simp] theorem gauge_set_self (person : Person) (stat : Stat) (value : Int) :
    (person.set stat value).gauges.get stat = (person.gauges.get stat).reach value :=
  PerStat.get_set_self _ _ _

theorem gauge_set_of_ne (person : Person) {stat stat' : Stat} (value : Int)
    (h : stat' ≠ stat) : (person.set stat value).gauges.get stat' = person.gauges.get stat' :=
  PerStat.get_set_of_ne _ _ h

@[simp] theorem current_set_self (person : Person) (stat : Stat) (value : Int) :
    (person.set stat value).current stat = value := by
  simp [current, Gauge.reach]

/-- The age nearest to `age` that the life may have. -/
def withinLife (person : Person) (age : Int) : Int :=
  max 0 (min age person.terminalAge)

theorem withinLife_nonneg (person : Person) (age : Int) : 0 ≤ person.withinLife age :=
  Int.le_max_left _ _

theorem withinLife_le {person : Person} (h : 0 ≤ person.terminalAge) (age : Int) :
    person.withinLife age ≤ person.terminalAge := by
  unfold withinLife
  omega

/-- The value that a stat has after a change by an amount. -/
def changed (person : Person) (stat : Stat) (amount : Int) : Int :=
  let value := Range.saturate (person.current stat + amount)
  if stat = .age then person.withinLife value else value

/-- The person after a change of a stat. -/
def change (person : Person) (stat : Stat) (amount : Int) : Person :=
  if amount = 0 then person else person.set stat (person.changed stat amount)

/-- The person after changes of all stats. -/
def changeAll (person : Person) (amounts : PerStat Int) : Person :=
  Stat.all.foldl (fun person stat => person.change stat (amounts.get stat)) person

/-- One of the core stats. -/
def drawCore (source : Source) : Stat × Source :=
  let (place, source) := source.below Stat.core.length
  (Stat.core.getD place .charm, source)

/-- The person after an effect.  A core stat is drawn only if the effect has a random
amount. -/
def apply (person : Person) (effect : Effect) (source : Source) : Person × Source :=
  let person := person.changeAll effect.amounts
  if effect.random = 0 then (person, source)
  else
    let (stat, source) := drawCore source
    (person.change stat effect.random, source)

/-- The person after an effect that may be missing. -/
def applyIfAny (person : Person) (effect : Option Effect) (source : Source) :
    Person × Source :=
  match effect with
  | some effect => person.apply effect source
  | none => (person, source)

/-- The person when a year turns. -/
def nextYear (person : Person) : Person :=
  person.set .age (person.withinLife (Range.saturate (person.current .age + 1)))

theorem current_nextYear (person : Person) :
    person.nextYear.current .age =
      person.withinLife (Range.saturate (person.current .age + 1)) :=
  current_set_self person .age _

/-! ## What a life gathers -/

/-- The person with one more talent. -/
def addTalent (person : Person) (id : Int) : Person :=
  { person with talents := addNew id person.talents }

/-- The person to whom an event has happened. -/
def recordEvent (person : Person) (id : Int) : Person :=
  { person with events := addNew id person.events }

/-- The person with one more achievement. -/
def addAchievement (person : Person) (id : Int) : Person :=
  { person with achievements := addNew id person.achievements }

/-- The person with the achievements of earlier lives, one group for each life. -/
def setHistory (person : Person) (groups : List (List Int)) : Person :=
  let person := groups.flatten.foldl addAchievement person
  { person with lives := min groups.length Range.greatest }

/-! ## Questions -/

/-- The life is used up. -/
def isDead (person : Person) : Bool :=
  person.current .life ≤ 0

/-- The life has come to its last age. -/
def atTerminalAge (person : Person) : Bool :=
  person.terminalAge ≤ person.current .age

/-- Twice the highest core stats, and half the highest age. -/
def score (person : Person) : Int :=
  2 * (Stat.core.map person.highest).foldr (· + ·) 0 + (person.highest .age).tdiv 2

/-- The present values of all stats. -/
def snapshot (person : Person) : PerStat Int :=
  person.gauges.map Gauge.current

/-- The values of a person by name: `TLT`, `EVT`, `ACH` and `TMS` for what the life has
gathered, `SUM` for the score, a stat by its code, and its extremes by `H` and `L` in
front of the code. -/
def lookup (person : Person) : Lookup := fun name =>
  match name with
  | "TLT" => some (.list person.talents)
  | "EVT" => some (.list person.events)
  | "ACH" => some (.list person.achievements)
  | "TMS" => some (.whole person.lives)
  | "SUM" => some (.whole (Range.saturate person.score))
  | name =>
    match Stat.ofCode? name with
    | some stat => some (.whole (person.current stat))
    | none =>
      match name.toList with
      | 'H' :: code => (Stat.ofCode? (String.ofList code)).map fun stat => .whole (person.highest stat)
      | 'L' :: code => (Stat.ofCode? (String.ofList code)).map fun stat => .whole (person.lowest stat)
      | _ => none

end Person
end LifeCourse
