import ByteMachine.Word

/-!
The eight general registers. The last of them doubles as the stack pointer, so an instruction that
names it moves the stack.
-/

namespace ByteMachine

abbrev Register := Fin 8

namespace Register

def count : Nat := 8

/-- The register that an operand byte names. -/
def ofByte? (index : Byte) : Option Register :=
  if h : index.toNat < 8 then some ⟨index.toNat, h⟩ else none

def stackPointer : Register := 7

end Register

structure RegisterFile where
  cells : Vector Byte 8
  deriving DecidableEq

namespace RegisterFile

/-- Where the stack begins. It grows towards address zero. -/
def stackTop : Byte := 0xF4

def get (file : RegisterFile) (register : Register) : Byte :=
  file.cells[register]

def set (file : RegisterFile) (register : Register) (value : Byte) : RegisterFile :=
  ⟨file.cells.set register value⟩

def initial : RegisterFile :=
  (RegisterFile.mk (Vector.replicate 8 0)).set .stackPointer stackTop

def sp (file : RegisterFile) : Byte :=
  file.get .stackPointer

def toList (file : RegisterFile) : List Byte :=
  file.cells.toList

@[simp] theorem get_set_self (file : RegisterFile) (register : Register) (value : Byte) :
    (file.set register value).get register = value := by
  simp [get, set]

theorem get_set_of_ne (file : RegisterFile) {register other : Register} (value : Byte)
    (h : other ≠ register) : (file.set register value).get other = file.get other := by
  have : register.val ≠ other.val := fun e => h (Fin.ext e.symm)
  simp [get, set, this]

end RegisterFile

end ByteMachine
