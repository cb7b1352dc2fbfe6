import ByteMachine.CommandLine.Switch

/-!
The words of a command line, sorted into switches and free words. Short switches share a word, and
a switch takes its argument from the rest of its own word or else from the next one, whatever that
looks like. Of several errors the leftmost is reported.
-/

namespace ByteMachine.CommandLine

inductive ScanError where
  | unrecognized (name : String)
  | argumentMissing (name : String)
  | unexpectedArgument (name : String)
  | repeated (switch : Switch)
  deriving DecidableEq, Repr

namespace ScanError

def message : ScanError → String
  | unrecognized name => "Unrecognized option: '" ++ name ++ "'"
  | argumentMissing name => "Argument to option '" ++ name ++ "' missing"
  | unexpectedArgument name => "Option '" ++ name ++ "' does not take an argument"
  | repeated switch => "Option '" ++ switch.name ++ "' given more than once"

end ScanError

/-- A word by its dashes. A lone dash is free. -/
inductive Word where
  | free
  | terminator
  | long (name : List Char) (value : Option (List Char))
  | short (letters : List Char)
  deriving DecidableEq, Repr

namespace Word

def ofChars : List Char → Word
  | ['-', '-'] => terminator
  | '-' :: '-' :: text => long (text.takeWhile (· != '=')) (text.dropWhile (· != '=')).tail?
  | '-' :: letter :: letters => short (letter :: letters)
  | _ => free

end Word

/-- A switch as it was given, with its argument if it takes one. -/
structure Occurrence where
  switch : Switch
  argument : Option String
  deriving DecidableEq, Repr

/-- A switch that takes its argument from the next word, with the spelling that errors show. -/
structure Pending where
  switch : Switch
  spelling : String
  deriving DecidableEq, Repr

/-- Reads a word of letters up to a switch that takes an argument, which takes the rest. -/
def readLetters : List Char → Except ScanError (List Occurrence × Option Pending)
  | [] => .ok ([], none)
  | letter :: rest =>
    match Switch.ofLetter? letter with
    | none => .error (.unrecognized letter.toString)
    | some switch =>
      if switch.takesArgument then
        if rest.isEmpty then .ok ([], some ⟨switch, letter.toString⟩)
        else .ok ([⟨switch, some (String.ofList rest)⟩], none)
      else (readLetters rest).map fun (given, pending) => (⟨switch, none⟩ :: given, pending)

def readLong (name : List Char) (value : Option (List Char)) :
    Except ScanError (List Occurrence × Option Pending) :=
  match Switch.ofName? name, value with
  | none, _ => .error (.unrecognized (String.ofList name))
  | some switch, some value =>
    if switch.takesArgument then .ok ([⟨switch, some (String.ofList value)⟩], none)
    else .error (.unexpectedArgument (String.ofList name))
  | some switch, none =>
    if switch.takesArgument then .ok ([], some ⟨switch, String.ofList name⟩)
    else .ok ([⟨switch, none⟩], none)

structure Scan where
  given : List Occurrence
  free : List String
  deriving DecidableEq, Repr

namespace Scan

def empty : Scan := ⟨[], []⟩

def give (occurrences : List Occurrence) (scan : Scan) : Scan :=
  { scan with given := occurrences ++ scan.given }

def addFree (word : String) (scan : Scan) : Scan :=
  { scan with free := word :: scan.free }

/-- Reads words, the first of them as an argument if a switch waits for one. -/
def read : Option Pending → List String → Except ScanError Scan
  | none, [] => .ok empty
  | some pending, [] => .error (.argumentMissing pending.spelling)
  | some pending, word :: rest => (read none rest).map (give [⟨pending.switch, some word⟩])
  | none, word :: rest =>
    match Word.ofChars word.toList with
    | .free => (read none rest).map (addFree word)
    | .terminator => .ok ⟨[], rest⟩
    | .long name value => do
      let (given, pending) ← readLong name value
      return (← read pending rest).give given
    | .short letters => do
      let (given, pending) ← readLetters letters
      return (← read pending rest).give given

def count (scan : Scan) (switch : Switch) : Nat :=
  scan.given.countP (·.switch == switch)

def has (scan : Scan) (switch : Switch) : Bool :=
  0 < scan.count switch

def argument? (scan : Scan) (switch : Switch) : Option String :=
  (scan.given.find? (·.switch == switch)).bind (·.argument)

/-- Reads the words after the program name. A switch given twice is found after all other errors,
and of several the first in the order of the usage text is reported. -/
def ofWords (words : List String) : Except ScanError Scan := do
  let scan ← read none words
  match Switch.all.find? (1 < scan.count ·) with
  | some switch => throw (.repeated switch)
  | none => return scan

end Scan

end ByteMachine.CommandLine
