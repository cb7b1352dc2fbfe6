import ByteMachine.Number
import ByteMachine.Word

/-!
What can be wrong with a line of a program, and how it is reported. A report has two parts, a
summary that names the kind of problem and a detail that shows the offending text.
-/

namespace ByteMachine.Source

open Text

inductive Problem where
  | emptyLabel
  /-- The text of a label is no address in the radix that it asks for. -/
  | labelNumber (radix : Radix)
  | labelOutside (address : Nat)
  | unknownMnemonic (name : String)
  | invalidByte (radix : Radix) (token : String)
  | operandCount (expected found : Nat) (line : String)
  /-- A byte has no place left. -/
  | noRoom (address : Nat)
  deriving DecidableEq, Repr

namespace Problem

def summary : Problem → String
  | emptyLabel | labelNumber _ => "invalid address label"
  | labelOutside address | noRoom address => "memory has no address `0x" ++ lowerHex address ++ "`"
  | unknownMnemonic _ => "failed to resolve instruction"
  | invalidByte radix _ => "failed to parse byte with radix `" ++ toString radix.base ++ "`"
  | operandCount expected found _ =>
    "expected " ++ toString expected ++ " operands, found " ++ toString found

def detail : Problem → String
  | emptyLabel => "an address label needs to have an address set"
  | labelNumber radix =>
    "failed to parse the address with radix `" ++ toString radix.base ++ "`"
  | labelOutside _ => "address label is past the end of memory"
  | unknownMnemonic name => "no instruction named `" ++ name ++ "`"
  | invalidByte _ token => "`" ++ token ++ "`"
  | operandCount _ _ line => "`" ++ line ++ "`"
  | noRoom _ => "program does not fit into memory"

/-- The address that a problem calls missing. -/
def missingAddress? : Problem → Option Nat
  | labelOutside address | noRoom address => some address
  | _ => none

end Problem

/-- A problem with the number of its line, counted from one. -/
structure Diagnostic where
  line : Nat
  problem : Problem
  deriving DecidableEq, Repr

namespace Diagnostic

def text (diagnostic : Diagnostic) : String :=
  "error [ln: " ++ toString diagnostic.line ++ "]: " ++ diagnostic.problem.summary ++ " - " ++
    diagnostic.problem.detail

/-- All diagnostics of a program in one text, each on a line of its own below the count. -/
def summarize (diagnostics : List Diagnostic) : String :=
  toString diagnostics.length ++ " error(s) while parsing program" ++
    String.join (diagnostics.map fun diagnostic => "\n  " ++ diagnostic.text)

end Diagnostic

end ByteMachine.Source
