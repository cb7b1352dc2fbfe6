import ByteMachine.Flags
import ByteMachine.Opcode
import ByteMachine.Register

/-!
Decoded instructions. Decoding checks the operand bytes that name registers, the first before the
second, so every later stage works with registers that exist.
-/

namespace ByteMachine

inductive Arithmetic where
  | add
  | mul
  deriving DecidableEq, Repr

namespace Arithmetic

/-- Results wrap around at 256. -/
def apply : Arithmetic → Byte → Byte → Byte
  | add, a, b => a + b
  | mul, a, b => a * b

def opcode : Arithmetic → Opcode
  | add => .add
  | mul => .mul

end Arithmetic

/-- Where execution goes on after an instruction. -/
inductive Flow where
  | next
  | jump (target : Address)
  deriving DecidableEq, Repr

inductive Instruction where
  | hlt
  | ldi (target : Register) (value : Byte)
  | prn (source : Register)
  | arithmetic (operation : Arithmetic) (target source : Register)
  | push (source : Register)
  | pop (target : Register)
  | call (target : Register)
  | ret
  | cmp (left right : Register)
  | jmp (target : Register)
  /-- A jump that is taken only if the flags meet a condition. -/
  | branch (condition : Flags.Condition) (target : Register)
  deriving DecidableEq, Repr

namespace Instruction

/-- The register that an operand names, or the operand itself if it names none. -/
def register (operand : Byte) : Except Byte Register :=
  match Register.ofByte? operand with
  | some register => .ok register
  | none => .error operand

/-- Decodes an opcode with two operand bytes, of which it ignores those that it does not take. The
error is the first operand that should name a register and does not. -/
def decode (opcode : Opcode) (a b : Byte) : Except Byte Instruction :=
  match opcode with
  | .hlt => .ok hlt
  | .ldi => (register a).map (ldi · b)
  | .prn => (register a).map prn
  | .mul => do return arithmetic .mul (← register a) (← register b)
  | .pop => (register a).map pop
  | .push => (register a).map push
  | .call => (register a).map call
  | .ret => .ok ret
  | .add => do return arithmetic .add (← register a) (← register b)
  | .jmp => (register a).map jmp
  | .jeq => (register a).map (branch .equal)
  | .jne => (register a).map (branch .different)
  | .cmp => do return cmp (← register a) (← register b)

def opcode : Instruction → Opcode
  | hlt => .hlt
  | ldi .. => .ldi
  | prn .. => .prn
  | arithmetic operation .. => operation.opcode
  | push .. => .push
  | pop .. => .pop
  | call .. => .call
  | ret => .ret
  | cmp .. => .cmp
  | jmp .. => .jmp
  | branch .equal _ => .jeq
  | branch .different _ => .jne

end Instruction

end ByteMachine
