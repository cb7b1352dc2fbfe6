import ByteMachine.Files
import ByteMachine.Source.Load

/-!
Program files: what reading a path came to, turned into a loaded memory or a report that names the
path.
-/

namespace ByteMachine.Source

inductive OpenError where
  | unreadable (path : String) (cause : ReadError)
  | malformed (path : String) (diagnostics : List Diagnostic)
  deriving DecidableEq, Repr

/-- The report of an error, from the outermost text to the cause. -/
def OpenError.chain : OpenError → List String
  | unreadable path cause => ["Failed to read `" ++ path ++ "`", cause.message]
  | malformed path diagnostics =>
    ["Failed to parse `" ++ path ++ "`", Diagnostic.summarize diagnostics]

/-- A program file as far as it could be loaded, with the records of its loading. -/
structure Opened (size : Nat) where
  records : List Record
  memory : Except OpenError (Memory size)

/-- Loads a program into an empty memory, given what reading its path came to. -/
def openProgram {size : Nat} (path : String) (contents : Except ReadError String) : Opened size :=
  match contents with
  | .error cause => ⟨[], .error (.unreadable path cause)⟩
  | .ok text =>
    let progress := load (.zeros : Memory size) text.toList
    ⟨progress.records.toList, progress.result.mapError (.malformed path)⟩

end ByteMachine.Source
