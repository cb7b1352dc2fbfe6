import ByteMachine.Host

/-!
The command line program. It shows the journal of the run after every turn and keeps the clock; all
that it shows comes from the library.
-/

namespace ByteMachine.Console

open CommandLine Host

/-- A report, one numbered text below the other. -/
def reportText (chain : List String) : String :=
  String.join (chain.zipIdx.map fun (text, depth) =>
    "\n   " ++ toString depth ++ ": " ++ text)

def recordText (level : Level) (origin : Origin) (text : String) : String :=
  String.ofList (level.name.toList.rightpad 5 ' ') ++ " [" ++ origin.path ++ "] " ++ text

def outputText : Output → String
  | .line text => text
  | .record entry => recordText entry.level entry.origin entry.text
  | .failure chain => recordText .error .host (reportText chain)

def put (output : List Output) : IO Unit := do
  for piece in output do
    IO.println (outputText piece)
  (← IO.getStdout).flush

/-- Reads a file. The errors of the system are told apart as far as they have texts of their
own. -/
def readText (path : String) : IO (Except ReadError String) := do
  if path.toList.contains '\x00' then return .error .nulInName
  try
    let bytes ← IO.FS.readBinFile path
    match String.fromUTF8? bytes with
    | some text => return .ok text
    | none => return .error .notText
  catch
    | .noFileOrDirectory .. => return .error .notFound
    | .inappropriateType _ code _ => return .error (if code == 21 then .isFolder else .notFolder)
    | .invalidArgument .. => return .error .nameTooLong
    | error => return .error (.other (toString error))

def pause : Pace → IO Unit
  | .free => return ()
  | .clocked microseconds => IO.sleep (UInt32.ofNat (min (microseconds / 1000) 0xFFFFFFFF))

/-- Runs the machine to its end and shows each turn as it happens. -/
partial def drive (settings : Settings) (machine : Machine memorySize) (count : Nat) :
    IO (Option Fault × Machine memorySize) := do
  let reveal (machine : Machine memorySize) : IO (Machine memorySize) := do
    put (shown settings.level machine.journal.toList)
    return { machine with journal := #[] }
  match Exec.turn count settings.pace machine with
  | .ok none machine =>
    let machine ← reveal machine
    pause settings.pace
    drive settings machine (count + 1)
  | .ok (some _) machine => return (none, ← reveal machine)
  | .error fault machine => return (some fault, ← reveal machine)

def session (settings : Settings) : IO UInt32 := do
  let opened := Source.openProgram settings.program (← readText settings.program)
  put (shown settings.level (opened.records.map .logged))
  match opened.memory with
  | .error error =>
    put [.failure error.chain]
    return 1
  | .ok memory =>
    let (fault?, machine) ← drive settings (boot settings memory) 0
    put (shown settings.level (close settings machine).journal.toList)
    match fault? with
    | none => return 0
    | some fault =>
      put [.failure (faultChain settings fault machine)]
      return 1

def run (arguments : List String) : IO UInt32 := do
  let name := Request.programName arguments
  match Request.ofArguments arguments with
  | .error error =>
    IO.eprintln (reportText (error.chain name))
    return 1
  | .ok .help =>
    put (textLines (usage name))
    return 0
  | .ok (.run settings) => session settings

end ByteMachine.Console

def main (arguments : List String) : IO UInt32 :=
  ByteMachine.Console.run (ByteMachine.CommandLine.Request.defaultName :: arguments)
