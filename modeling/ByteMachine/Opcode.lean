import ByteMachine.Word

/-!
The instruction set as it is encoded. The two top bits of an opcode byte tell how many operand
bytes follow it, so a length is known for every byte, opcode or not.
-/

namespace ByteMachine

/-- The number of operand bytes that follow a byte in program text. -/
def operandCount (byte : Byte) : Nat :=
  (byte >>> 6).toNat

inductive Opcode where
  | hlt | ldi | prn | mul | pop | push | call | ret | add | jmp | jeq | jne | cmp
  deriving DecidableEq, Repr

namespace Opcode

def all : List Opcode :=
  [hlt, ldi, prn, mul, pop, push, call, ret, add, jmp, jeq, jne, cmp]

def byte : Opcode → Byte
  | hlt => 0b00000001
  | ldi => 0b10011001
  | prn => 0b01000011
  | mul => 0b10101010
  | pop => 0b01001100
  | push => 0b01001101
  | call => 0b01001000
  | ret => 0b00001001
  | add => 0b10101000
  | jmp => 0b01010000
  | jeq => 0b01010001
  | jne => 0b01010010
  | cmp => 0b10100000

def mnemonic : Opcode → String
  | hlt => "HLT"
  | ldi => "LDI"
  | prn => "PRN"
  | mul => "MUL"
  | pop => "POP"
  | push => "PUSH"
  | call => "CALL"
  | ret => "RET"
  | add => "ADD"
  | jmp => "JMP"
  | jeq => "JEQ"
  | jne => "JNE"
  | cmp => "CMP"

def ofByte? (byte : Byte) : Option Opcode :=
  all.find? (·.byte == byte)

/-- Finds an opcode by its mnemonic, in any mixture of capital and small letters. -/
def ofName? (name : List Char) : Option Opcode :=
  all.find? (·.mnemonic.toList == name.map Char.toUpper)

def operandCount (opcode : Opcode) : Nat :=
  ByteMachine.operandCount opcode.byte

/-- The number of bytes that an instruction takes up, opcode included. -/
def length (opcode : Opcode) : Nat :=
  opcode.operandCount + 1

/-- The message for a byte that encodes no instruction. -/
def unknownMessage (byte : Byte) : String :=
  "No discriminant in enum `Instruction` matches the value `" ++ toString byte.toNat ++ "`"

/-- The top bits of the opcodes, read as numbers of operands. -/
theorem operandCount_eq (opcode : Opcode) :
    opcode.operandCount = match opcode with
      | hlt | ret => 0
      | prn | pop | push | call | jmp | jeq | jne => 1
      | ldi | mul | add | cmp => 2 := by
  cases opcode <;> decide

theorem ofByte?_byte (opcode : Opcode) : ofByte? opcode.byte = some opcode := by
  cases opcode <;> rfl

theorem byte_of_ofByte? {byte : Byte} {opcode : Opcode} (h : ofByte? byte = some opcode) :
    opcode.byte = byte := by
  simpa using List.find?_some h

end Opcode

end ByteMachine
