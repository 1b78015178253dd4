import LifeCourse.Document.Defect
import LifeCourse.Draft.Fault

/-!
# Failures

What a caller of the library can be told.  Everything else that may be wrong with a
ruleset has no effect on a life and is a matter for the checker.
-/

namespace LifeCourse

/-- Why a document makes no ruleset: it cannot be read, or what it says is refused. -/
inductive Malformation where
  | defect (defect : Document.Defect)
  | fault (fault : Fault)

/-- The malformation in words. -/
def Malformation.message : Malformation → String
  | defect d => d.message
  | fault f => f.message

/-- Why a file gives no text. -/
inductive FileFault where
  | missing
  | directory
  | notUnicode
  | other (reason : String)
  deriving DecidableEq, Repr

/-- The file fault in words. -/
def FileFault.message : FileFault → String
  | missing => "No such file or directory (os error 2)"
  | directory => "Is a directory (os error 21)"
  | notUnicode => "stream did not contain valid UTF-8"
  | other reason => reason

/-- What a caller can be told. -/
inductive Failure where
  /-- A life was asked for before there were rules. -/
  | notInitialized
  /-- Rules were brought when there were some already. -/
  | alreadyInitialized
  /-- A request names an entity that the rules do not have. -/
  | unknown (kind : EntityKind) (id : Int)
  /-- A document makes no ruleset. -/
  | malformed (malformation : Malformation)
  /-- A file gives no text. -/
  | file (fault : FileFault)
  /-- A simulation was stopped from outside. -/
  | interrupted (reason : String)

namespace Failure

/-- The message for a document that makes no ruleset. -/
def malformedMessage (reason : String) : String :=
  s!"malformed configuration: {reason}"

/-- The failure in words. -/
def message : Failure → String
  | notInitialized => "configuration not initialized; call init_config first"
  | alreadyInitialized => "configuration already initialized"
  | unknown kind id => s!"unknown {kind.describe} id: {Decimal.written id}"
  | malformed malformation => malformedMessage malformation.message
  | file fault => s!"IO error: {fault.message}"
  | interrupted reason => s!"simulation interrupted: {reason}"

end Failure
end LifeCourse
