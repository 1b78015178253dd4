import LifeCourse.Draft.Loading
import LifeCourse.Lint.Report

/-!
# The command

The command loads a ruleset from the first file that it is given, lays those of the
other files over it, and prints the report.  It succeeds if no error is reported; it
stops at the first file that gives no ruleset.

What it does is a function of the arguments and of what the files hold.  Reading files
and printing are left to the program around it.
-/

namespace LifeCourse
namespace Lint

/-! ## Files -/

/-- What files hold, by path. -/
abbrev Files := String → Except FileFault ByteArray

/-- The last part of a path that names something. -/
def fileName? (path : String) : Option (List Char) :=
  let parts := (path.splitOn "/").filter fun part => part != "" && part != "."
  match parts.getLast? with
  | some ".." => none
  | last => last.map String.toList

/-- The letters after the last point of a file name; a point in front of the name does
not count. -/
def extension? (path : String) : Option String := do
  let (stem, extension) ← Text.splitLast '.' (← fileName? path)
  if stem = [] then none else some (String.ofList extension)

/-- The ruleset of a file: RON if its extension says so, else JSON. -/
def loadFile (files : Files) (path : String) : Except Failure Ruleset :=
  match files path with
  | .error fault => .error (.file fault)
  | .ok bytes =>
    match String.fromUTF8? bytes with
    | none => .error (.file .notUnicode)
    | some text =>
      if extension? path = some "ron" then Ruleset.ofRon text else Ruleset.ofJson text

/-! ## Loading -/

/-- The files that could be loaded, and the ruleset they make or the failure of the file
after them. -/
structure Loading where
  loaded : List String
  result : Except (String × Failure) Ruleset

/-- Lays the rulesets of files over a ruleset. -/
def overlayFiles (files : Files) : List String → Ruleset → Loading
  | [], rules => ⟨[], .ok rules⟩
  | path :: rest, rules =>
    match loadFile files path with
    | .error failure => ⟨[], .error (path, failure)⟩
    | .ok overlay =>
      let loading := overlayFiles files rest (rules.merge overlay)
      { loading with loaded := path :: loading.loaded }

/-- The ruleset of the first file with those of the others laid over it. -/
def loadFiles (files : Files) : List String → Loading
  | [] => ⟨[], .ok .standard⟩
  | path :: rest =>
    match loadFile files path with
    | .error failure => ⟨[], .error (path, failure)⟩
    | .ok rules =>
      let loading := overlayFiles files rest rules
      { loading with loaded := path :: loading.loaded }

/-! ## The outcome -/

/-- What the command leaves behind: its printed lines, the file that could not be loaded,
and whether it succeeded. -/
structure Outcome where
  lines : List String
  failure : Option (String × Failure)
  succeeded : Bool

/-- How the command is to be used. -/
def usage : String :=
  "Usage: config_linter <config.json|config.ron> [<overlay>...]"

/-- The numbers of entities of a ruleset. -/
def sizes (rules : Ruleset) : String :=
  s!"Loaded {rules.talents.size} talents, {rules.events.size} events, " ++
    s!"{rules.ages.size} ages, {rules.achievements.size} achievements"

/-- The lines of a report. -/
def reportLines (rules : Ruleset) (issues : List Issue) : List String :=
  [sizes rules, "", "=== Config Lint Report ===", ""] ++
    (if issues.isEmpty then ["All checks passed!"] else []) ++
    issues.map Issue.line ++
    ["", s!"Summary: {errorCount issues} errors, {warningCount issues} warnings"]

/-- Whether the arguments ask how the command is to be used. -/
def asksForUsage (arguments : List String) : Bool :=
  match arguments with
  | [] => true
  | first :: _ => first == "--help" || first == "-h"

/-- Runs the command. -/
def run (files : Files) (arguments : List String) : Outcome :=
  if asksForUsage arguments then ⟨[usage], none, true⟩
  else
    let loading := loadFiles files arguments
    let loadedLines := loading.loaded.map fun path => s!"  Loaded: {path}"
    match loading.result with
    | .error failed => ⟨loadedLines, some failed, false⟩
    | .ok rules =>
      let issues := report rules
      ⟨loadedLines ++ reportLines rules issues, none, errorCount issues == 0⟩

namespace Outcome

/-- The exit status. -/
def status (outcome : Outcome) : UInt8 :=
  if outcome.succeeded then 0 else 1

/-- What is printed. -/
def output (outcome : Outcome) : String :=
  String.join (outcome.lines.map (· ++ "\n"))

/-- What is printed as an error, where `describe` words the failure. -/
def errorOutput (outcome : Outcome) (describe : Failure → String) : String :=
  match outcome.failure with
  | some (path, failure) => s!"ERROR: Failed to load {path}: {describe failure}\n"
  | none => ""

end Outcome
end Lint
end LifeCourse
