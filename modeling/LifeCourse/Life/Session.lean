import LifeCourse.Life.Course
import LifeCourse.Life.Judgement

/-!
# Sessions

A session is what a caller sees of a life: its years as lines to be shown, its summary,
and what is new.  It does not change any more, and is read as a whole, year by year, or
page by page.

## Pages

Pages are counted from 1.  Counts and page numbers fit 64 bits, and arithmetic on them
stops at the greatest such number; since no life has that many years, the entries of a
page are those that plain arithmetic gives.
-/

namespace LifeCourse

/-! ## Lines -/

/-- Where a line comes from. -/
inductive LineKind where
  | talent
  | event
  deriving DecidableEq, Repr

/-- A line of a year. -/
structure Line where
  kind : LineKind
  description : String
  grade : Int
  name : Option String
  deriving DecidableEq, Repr

/-- The sign of a grade. -/
def gradeGlyph (grade : Int) : String :=
  if grade ≤ 0 then "⚪"
  else if grade = 1 then "🔵"
  else if grade = 2 then "🟣"
  else "🟠"

namespace Line

/-- The line of a talent that fired. -/
def ofTalent (info : Info) : Line :=
  ⟨.talent, info.description, info.grade, some info.name⟩

/-- The line of an event. -/
def ofLink (link : Link) : Line :=
  ⟨.event, link.telling, link.event.grade, none⟩

/-- The line with the sign of its grade. -/
def display (line : Line) : String :=
  let glyph := gradeGlyph line.grade
  match line.name with
  | some name =>
    if line.description = "" then s!"{glyph} {name}"
    else s!"{glyph} {name}: {line.description}"
  | none => s!"{glyph} {line.description}"

end Line

/-! ## Entries -/

/-- A year as a caller sees it. -/
structure Entry where
  age : Int
  content : List Line
  properties : PerStat Int
  isEnd : Bool
  deriving DecidableEq, Repr

namespace Entry

/-- The entry of a year. -/
def ofYear (year : Year) : Entry where
  age := year.age
  content := (year.firings.map fun firing => Line.ofTalent firing.talent.info) ++
    year.chain.map Line.ofLink
  properties := year.person.snapshot
  isEnd := year.isEnd

@[simp] theorem get_properties_ofYear (year : Year) (stat : Stat) :
    (ofYear year).properties.get stat = year.person.current stat :=
  PerStat.get_map _ _ stat

/-- The descriptions of the year. -/
def text (entry : Entry) : String :=
  "\n".intercalate (entry.content.map Line.description)

/-- The lines of the year. -/
def displayText (entry : Entry) : String :=
  "\n".intercalate (entry.content.map Line.display)

/-- The stats that are shown, separated by bars. -/
def stats (entry : Entry) : String :=
  " | ".intercalate <| [Stat.charm, .intelligence, .strength, .money, .spirit, .life].map
    fun stat => s!"{stat.code} {Decimal.written (entry.properties.get stat)}"

/-- The year as a block of text. -/
def formatted (entry : Entry) : String :=
  let body := if entry.displayText = "" then "" else entry.displayText ++ "\n"
  let ending := if entry.isEnd then "\n[end]" else ""
  s!"Age {Decimal.written entry.age}\n" ++ body ++ entry.stats ++ ending

end Entry

/-! ## Sessions -/

/-- What a caller sees of a life. -/
structure Session where
  trajectory : List Entry
  summary : Summary
  newAchievements : List Info
  triggeredEvents : List Int
  replacements : List (Info × Info)
  pageSize : Nat

/-- A count, or the greatest one. -/
def cappedCount (n : Nat) : Nat :=
  min n (wordLimit - 1)

namespace Session

/-- The session of a life. -/
def ofLife (rules : Ruleset) (life : Life) : Session where
  trajectory := life.years.map Entry.ofYear
  summary := summarize rules life.closing.person life.resolution.talents
  newAchievements := life.closing.ledger.infos
  triggeredEvents := life.years.flatMap fun year => year.chain.map Link.id
  replacements := life.resolution.replacements
  pageSize := rules.settings.pageSize

/-- Every entry shows the year in its place. -/
theorem exists_year_of_getElem? {rules : Ruleset} {life : Life} {k : Nat} {entry : Entry}
    (h : (ofLife rules life).trajectory[k]? = some entry) :
    ∃ hk : k < life.years.length, entry = Entry.ofYear life.years[k] := by
  have h : (life.years.map Entry.ofYear)[k]? = some entry := h
  obtain ⟨hk, rfl⟩ := List.getElem?_eq_some_iff.mp h
  rw [List.length_map] at hk
  exact ⟨hk, List.getElem_map _⟩

/-- The number of years. -/
def totalYears (session : Session) : Nat :=
  session.trajectory.length

/-- The age of the last year. -/
def finalAge (session : Session) : Option Int :=
  session.trajectory.getLast?.map Entry.age

/-- Whether the last year ended the life. -/
def isEnded (session : Session) : Bool :=
  session.trajectory.getLast?.any Entry.isEnd

/-- The score of the life. -/
def totalScore (session : Session) : Int :=
  session.summary.score

/-- A year by its place. -/
def year? (session : Session) (place : Nat) : Option Entry :=
  session.trajectory[place]?

/-- A year by its place, as a block of text. -/
def yearFormatted? (session : Session) (place : Nat) : Option String :=
  (session.year? place).map Entry.formatted

/-- The years from one place up to another one, as far as there are any. -/
def yearsRange (session : Session) (first last : Nat) : List Entry :=
  let last := min last session.totalYears
  let first := min first last
  (session.trajectory.take last).drop first

/-- The number of pages of a size; there are none of size zero. -/
def totalPages (session : Session) (size : Nat) : Nat :=
  if size = 0 then 0 else (session.totalYears + size - 1) / size

/-- The years of a page. -/
def page (session : Session) (number size : Nat) : List Entry :=
  if number = 0 ∨ size = 0 then []
  else
    let first := cappedCount ((number - 1) * size)
    session.yearsRange first (cappedCount (first + size))

/-- The number of pages of the configured size. -/
def pageCount (session : Session) : Nat :=
  session.totalPages session.pageSize

/-- The years of a page of the configured size. -/
def pageAt (session : Session) (number : Nat) : List Entry :=
  session.page number session.pageSize

end Session

/-! ## Simulation -/

/-- The session of the life that a request asks for. -/
def simulateWith (rules : Ruleset) (request : Request) (source : Source) :
    Except Failure Session × Source :=
  let (life, source) := live rules request source
  (life.map (Session.ofLife rules), source)

/-- The session of the life that a request asks for, with its own source if it has a
seed. -/
def simulate (rules : Ruleset) (request : Request) (atHand : Source) : Except Failure Session :=
  (simulateWith rules request (request.source atHand)).1

end LifeCourse
