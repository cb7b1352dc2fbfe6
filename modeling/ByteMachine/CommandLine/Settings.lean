import ByteMachine.CommandLine.Scan
import ByteMachine.Log
import ByteMachine.Machine.Run
import ByteMachine.Number

/-!
What a command line asks for: help, or a run with its settings.
-/

namespace ByteMachine.CommandLine

structure Settings where
  program : String
  /-- The clock period in milliseconds. -/
  clock : Option Nat
  dump : Bool
  level : Level
  deriving DecidableEq, Repr

namespace Settings

def pace (settings : Settings) : Pace :=
  match settings.clock with
  | some milliseconds => .clocked (1000 * milliseconds)
  | none => .free

end Settings

inductive Request where
  | help
  | run (settings : Settings)
  deriving DecidableEq, Repr

inductive ArgumentError where
  | scan (error : ScanError)
  | programCount
  | clock (cause : NumberError)
  deriving DecidableEq, Repr

namespace ArgumentError

/-- The report of an error, from the outermost text to the cause. -/
def chain (program : String) : ArgumentError → List String
  | scan error => [error.message ++ "\n" ++ usage program]
  | programCount => ["expected exactly one program\n" ++ usage program]
  | clock cause => ["--clock expects a number of milliseconds", cause.message]

end ArgumentError

namespace Request

def defaultName : String := "ls8"

/-- The name under which the program was called. -/
def programName (arguments : List String) : String :=
  arguments.headD defaultName

/-- A period has to fit into sixty-four bits. -/
def readClock (scan : Scan) : Except ArgumentError (Option Nat) :=
  match scan.argument? .clock with
  | none => .ok none
  | some text =>
    match Number.readNumeral 10 0xFFFFFFFFFFFFFFFF text.toList with
    | .ok milliseconds => .ok (some milliseconds)
    | .error cause => .error (.clock cause)

/-- Dumps are logged as information, so asking for one outweighs asking for quiet. -/
def level (scan : Scan) : Level :=
  if scan.has .verbose then .debug
  else if scan.has .quiet && !scan.has .dump then .warn
  else .info

/-- Reads a command line, whose first word is the name of the program. A request for help is met
before anything is asked of the other words than to be well formed. -/
def ofArguments (arguments : List String) : Except ArgumentError Request :=
  match Scan.ofWords arguments.tail with
  | .error error => .error (.scan error)
  | .ok scan =>
    if scan.has .help then .ok .help
    else
      match scan.free with
      | [program] => do
        let clock ← readClock scan
        return .run { program, clock, dump := scan.has .dump, level := level scan }
      | _ => .error .programCount

end Request

end ByteMachine.CommandLine
