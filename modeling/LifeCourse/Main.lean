import LifeCourse.Lint.Command

/-!
# The program

Reads the files that the command is given, runs it, prints what it leaves behind and
exits with its status.
-/

namespace LifeCourse

/-- What a file holds. -/
def readBytes (path : String) : IO (Except FileFault ByteArray) := do
  try
    return .ok (← IO.FS.readBinFile path)
  catch error =>
    return .error <| match error with
      | .noFileOrDirectory .. => .missing
      | .inappropriateType .. => .directory
      | error => .other (toString error)

/-- What the files at some paths hold. -/
def readFiles (paths : List String) : IO Lint.Files := do
  let contents ← paths.mapM fun path => do return (path, ← readBytes path)
  return fun path => (contents.lookup path).getD (.error .missing)

end LifeCourse

/-- Runs the command on the arguments. -/
def main (arguments : List String) : IO UInt32 := do
  let paths := if LifeCourse.Lint.asksForUsage arguments then [] else arguments
  let files ← LifeCourse.readFiles paths
  let outcome := LifeCourse.Lint.run files arguments
  IO.print outcome.output
  IO.eprint (outcome.errorOutput LifeCourse.Failure.message)
  return outcome.status.toUInt32
