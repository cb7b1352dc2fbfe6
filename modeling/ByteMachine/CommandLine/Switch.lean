/-!
The switches of the command line and the usage text that lists them.
-/

namespace ByteMachine.CommandLine

inductive Switch where
  | clock
  | dump
  | verbose
  | quiet
  | help
  deriving DecidableEq, Repr

namespace Switch

def all : List Switch :=
  [clock, dump, verbose, quiet, help]

def letter : Switch → Char
  | clock => 'c'
  | dump => 'd'
  | verbose => 'v'
  | quiet => 'q'
  | help => 'h'

def name : Switch → String
  | clock => "clock"
  | dump => "dump"
  | verbose => "verbose"
  | quiet => "quiet"
  | help => "help"

/-- What stands for the argument in the usage text, for a switch that takes one. -/
def hint? : Switch → Option String
  | clock => some "MS"
  | _ => none

def takesArgument (switch : Switch) : Bool :=
  switch.hint?.isSome

def purpose : Switch → String
  | clock => "execute one instruction every MS milliseconds"
  | dump => "log a memory dump after loading and after halting"
  | verbose => "log every executed instruction"
  | quiet => "only log warnings and errors"
  | help => "print this help menu"

def ofLetter? (letter : Char) : Option Switch :=
  all.find? (·.letter == letter)

/-- Finds a switch by what follows two dashes, which is its name or its letter. -/
def ofName? (name : List Char) : Option Switch :=
  all.find? fun switch => name == switch.name.toList || name == [switch.letter]

/-- The column at which the usage text explains a switch. -/
def purposeColumn : Nat := 24

def usageRow (switch : Switch) : String :=
  let hint := match switch.hint? with
    | some hint => " " ++ hint
    | none => ""
  let spelling := "    -" ++ switch.letter.toString ++ ", --" ++ switch.name ++ hint
  String.ofList (spelling.toList.rightpad purposeColumn ' ') ++ switch.purpose

end Switch

/-- The usage text for a program of the given name. -/
def usage (program : String) : String :=
  "Usage: " ++ program ++ " [options] PROGRAM\n\nOptions:\n" ++
    String.join (Switch.all.map fun switch => switch.usageRow ++ "\n")

end ByteMachine.CommandLine
