import ByteMachine.Word

/-!
The conditions that stop the machine. Each one is fatal to the run, and each but an access outside
the memory carries the program counter of the instruction that met it.
-/

namespace ByteMachine

inductive Fault where
  /-- The fetched byte is no opcode. -/
  | invalidOpcode (opcode : Byte) (pc : Address)
  /-- An operand names no register. -/
  | invalidRegister (index : Byte) (pc : Address)
  | addressOutOfRange (address : Nat)
  /-- A push would move the stack pointer below address zero. -/
  | stackOverflow (sp : Byte) (pc : Address)
  /-- A pop would move the stack pointer past the end of the memory. -/
  | stackUnderflow (sp : Byte) (pc : Address)
  deriving DecidableEq, Repr

namespace Fault

open Text

def message : Fault → String
  | invalidOpcode opcode pc =>
    "invalid opcode `0b" ++ binary 8 opcode.toNat ++ "` at 0x" ++ upperHex 2 pc.toNat
  | invalidRegister index pc =>
    "invalid register `R" ++ toString index.toNat ++ "` at 0x" ++ upperHex 2 pc.toNat
  | addressOutOfRange address => "memory has no address `0x" ++ lowerHex address ++ "`"
  | stackOverflow sp pc =>
    "stack overflow (SP = 0x" ++ upperHex 2 sp.toNat ++ ") at 0x" ++ upperHex 2 pc.toNat
  | stackUnderflow sp pc =>
    "stack underflow (SP = 0x" ++ upperHex 2 sp.toNat ++ ") at 0x" ++ upperHex 2 pc.toNat

end Fault

end ByteMachine
