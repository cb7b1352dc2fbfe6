import ByteMachine.Machine.Step

/-! The part of a machine that a program can read and change. The log is not in it, so what an
instruction does can be said without the record that it leaves. Every change of an instruction is
one of the functions below or the composition of two. -/
namespace ByteMachine

structure Configuration (size : Nat) where
  processor : Processor
  memory : Memory size
  printed : List Byte
  deriving DecidableEq

def Machine.configuration {size : Nat} (machine : Machine size) : Configuration size :=
  ⟨machine.processor, machine.memory, machine.printed⟩

namespace Configuration

variable {size : Nat}

def isHalted (c : Configuration size) : Bool := c.processor.isHalted

def pc (c : Configuration size) : Address := c.processor.pc

def sp (c : Configuration size) : Byte := c.processor.registers.sp

def get (c : Configuration size) (register : Register) : Byte :=
  c.processor.registers.get register

/-- The byte that a pop would take. -/
def top (c : Configuration size) : Byte := (c.memory.get? c.sp.toNat).getD 0

/-- The address that a call returns to, as far as a byte can hold it. -/
def back (c : Configuration size) : Byte := (c.pc + 2).toUInt8

def set (c : Configuration size) (register : Register) (value : Byte) : Configuration size :=
  { c with processor := { c.processor with
      registers := c.processor.registers.set register value } }

def setFlags (c : Configuration size) (flags : Flags) : Configuration size :=
  { c with processor := { c.processor with flags } }

def halt (c : Configuration size) : Configuration size :=
  { c with processor := { c.processor with status := .halted } }

def print (c : Configuration size) (value : Byte) : Configuration size :=
  { c with printed := c.printed ++ [value] }

def push (c : Configuration size) (value : Byte) : Configuration size :=
  { c.set .stackPointer (c.sp - 1) with memory := c.memory.set (c.sp.toNat - 1) value }

def pop (c : Configuration size) : Configuration size := c.set .stackPointer (c.sp + 1)

/-- Moves the program counter on after an instruction. -/
def advance (c : Configuration size) (opcode : Opcode) (flow : Flow) : Configuration size :=
  { c with processor := { c.processor with
      pc := match flow with
        | .next => c.processor.pc + UInt16.ofNat opcode.length
        | .jump target => target } }

/-- There is a cell below the stack pointer, within reach of a byte address. -/
def Pushable (c : Configuration size) : Prop := 0 < c.sp.toNat ∧ c.sp.toNat ≤ size

/-- There is a cell at the stack pointer and one above it. -/
def Poppable (c : Configuration size) : Prop := c.sp.toNat < 0xFF ∧ c.sp.toNat + 1 < size

/-! What the changes leave alone, and what they do to the stack pointer. -/

variable (c : Configuration size) (register other : Register) (value : Byte) (flags : Flags)

@[simp] theorem push_memory :
    (c.push value).memory = c.memory.set (c.sp.toNat - 1) value := rfl

@[simp] theorem get_set_self : (c.set register value).get register = value :=
  RegisterFile.get_set_self _ _ _

theorem get_set_of_ne (different : other ≠ register) :
    (c.set register value).get other = c.get other :=
  RegisterFile.get_set_of_ne _ _ different

theorem sp_set_of_ne (different : register ≠ .stackPointer) : (c.set register value).sp = c.sp :=
  c.get_set_of_ne register .stackPointer value different.symm

@[simp] theorem sp_push : (c.push value).sp = c.sp - 1 := c.get_set_self .stackPointer (c.sp - 1)

@[simp] theorem sp_pop : c.pop.sp = c.sp + 1 := c.get_set_self .stackPointer (c.sp + 1)

variable {c}

theorem Pushable.sp_push (room : c.Pushable) (value : Byte) :
    (c.push value).sp.toNat = c.sp.toNat - 1 := by
  have positive : (1 : Byte) ≤ c.sp := UInt8.le_iff_toNat_le.mpr room.1
  rw [Configuration.sp_push]
  exact UInt8.toNat_sub_of_le _ _ positive

theorem Poppable.sp_pop (filled : c.Poppable) : c.pop.sp.toNat = c.sp.toNat + 1 := by
  have below := filled.1
  rw [Configuration.sp_pop, UInt8.toNat_add]
  exact Nat.mod_eq_of_lt (Nat.succ_lt_succ below)

end Configuration

end ByteMachine
