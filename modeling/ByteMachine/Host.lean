import ByteMachine.CommandLine.Settings
import ByteMachine.Memory.Dump
import ByteMachine.Source.Program

/-!
The command line program as a function from its arguments and files to its exit code and what it
writes. Loading, running and reporting are apart, so that a program that shows its output while it
runs goes through the same parts.
-/

namespace ByteMachine.Host

open CommandLine

/-- The memory that program files are loaded into. -/
abbrev memorySize : Nat := 0x100

/-- One piece of standard output. -/
inductive Output where
  | line (text : String)
  | record (record : Record)
  /-- The final error record, which carries a whole report. -/
  | failure (chain : List String)
  deriving DecidableEq, Repr

structure Outcome where
  exitCode : Nat
  output : List Output
  errors : List String
  deriving DecidableEq, Repr

def Output.ofEvent : Event → Output
  | .printed value => .line (toString value.toNat)
  | .logged entry => .record entry

/-- What the events of a run look like at a level. -/
def shown (level : Level) (events : List Event) : List Output :=
  (events.filter (·.shownAt level)).map Output.ofEvent

/-- The machine with a program in its memory, before its first instruction. -/
def boot (settings : Settings) (memory : Memory memorySize) : Machine memorySize :=
  let machine := Machine.start memory
  if settings.dump then machine.logAll memory.dump else machine

/-- Closes the journal of a run, whether it halted or faulted. -/
def close (settings : Settings) (machine : Machine memorySize) : Machine memorySize :=
  if settings.dump then
    machine.logAll (⟨.info, .host, machine.processor.trace⟩ :: machine.memory.dump)
  else machine

/-- The report of a fault, with the state before the instruction that met it. -/
def faultChain (settings : Settings) (fault : Fault) (machine : Machine memorySize) :
    List String :=
  ["Execution of `" ++ settings.program ++ "` failed (" ++ machine.processor.trace ++ ")",
    fault.message]

/-- Runs a loaded program. No answer means that the limit on turns was too small for it. -/
def execute (limit : Nat) (settings : Settings) (memory : Memory memorySize) : Option Outcome :=
  match Exec.drive settings.pace limit 0 (boot settings memory) with
  | .ok none _ => none
  | .ok (some _) machine =>
    some ⟨0, shown settings.level (close settings machine).journal.toList, []⟩
  | .error fault machine =>
    some ⟨1, shown settings.level (close settings machine).journal.toList ++
      [.failure (faultChain settings fault machine)], []⟩

/-- Loads and runs a program, given what reading its path came to. -/
def session (limit : Nat) (settings : Settings) (contents : Except ReadError String) :
    Option Outcome :=
  let opened := Source.openProgram settings.program contents
  let preamble := shown settings.level (opened.records.map .logged)
  match opened.memory with
  | .error error => some ⟨1, preamble ++ [.failure error.chain], []⟩
  | .ok memory =>
    (execute limit settings memory).map fun outcome =>
      { outcome with output := preamble ++ outcome.output }

/-- The lines of a text that ends each of them with a newline. -/
def textLines (text : String) : List Output :=
  (Text.lines text.toList).map fun line => .line (String.ofList line)

/-- Runs a command line, whose first word is the name of the program. -/
def run (limit : Nat) (folder : Folder) (arguments : List String) : Option Outcome :=
  let name := Request.programName arguments
  match Request.ofArguments arguments with
  | .error error => some ⟨1, [], error.chain name⟩
  | .ok .help => some ⟨0, textLines (usage name), []⟩
  | .ok (.run settings) => session limit settings (folder.read settings.program)

end ByteMachine.Host
