import ByteMachine.Opcode
import ByteMachine.Source.Problem
import ByteMachine.Text.Layout

/-!
The lines of a program, read one by one. A line is blank, a label, an instruction or a list of
bytes; what it means depends neither on the lines around it nor on the memory.
-/

namespace ByteMachine.Source

open Text

inductive Statement where
  | blank
  | label (address : Except Problem Nat)
  | instruction (opcode : Opcode) (operands : Except Problem (List Byte))
  | unknown (name : String)
  /-- The bytes of a line up to the first token that is none, and what is wrong with that token. -/
  | bytes (values : List Byte) (flaw : Option Problem)

namespace Statement

def readByte (token : List Char) : Except Problem Byte :=
  match Number.read 0xFF token with
  | .ok value => .ok (UInt8.ofNat value)
  | .error radix => .error (.invalidByte radix (String.ofList token))

def readLabel (text : List Char) : Except Problem Nat :=
  if text.isEmpty then .error .emptyLabel
  else (Number.read 0xFFFF text).mapError .labelNumber

/-- The operands of an instruction are all there or left out together, to follow as bytes. -/
def readOperands (opcode : Opcode) (line : List Char) (tokens : List (List Char)) :
    Except Problem (List Byte) := do
  let values ← tokens.mapM readByte
  if values.isEmpty || values.length == opcode.operandCount then return values
  else throw (.operandCount opcode.operandCount values.length (String.ofList line))

def ofInstruction (line : List Char) : Statement :=
  let tokens := words line
  let name := tokens.headD []
  match Opcode.ofName? name with
  | some opcode => .instruction opcode (readOperands opcode line tokens.tail)
  | none => .unknown (String.ofList name)

def ofBytes (line : List Char) : Statement :=
  let readings := (words line).map readByte
  .bytes ((readings.takeWhile (·.isOk)).filterMap (·.toOption))
    (readings.findSome? fun | .ok _ => none | .error problem => some problem)

/-- Reads a line. The last character decides about a label before the first does about an
instruction. -/
def ofLine (raw : List Char) : Statement :=
  let line := trim (uncommented raw)
  if line.isEmpty then .blank
  else if line.getLast? = some ':' then .label (readLabel (trim line.dropLast))
  else if line.head?.any Char.isAlpha then ofInstruction line
  else ofBytes line

/-- What the loader says about a statement while it loads it, given the size of the memory. -/
def notes (size : Nat) : Statement → List String
  | blank | unknown _ => []
  | label (.ok address) =>
    "Found address label" ::
      if address < size then ["Address label `0x" ++ lowerHex address ++ "`"] else []
  | label (.error _) => ["Found address label"]
  | instruction opcode _ => ["Found instruction " ++ opcode.mnemonic]
  | bytes .. => ["Found byte literal"]

end Statement

end ByteMachine.Source
