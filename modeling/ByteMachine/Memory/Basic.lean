import ByteMachine.Fault

/-!
The memory: a fixed number of byte cells, addressed from zero. Writing is an action on it, and what
an action has written when it meets a fault stays written; that an access outside of the memory
changes nothing is a fact about each action, not about the type. `get?` is the view through which
the operations are told apart: two memories of one size that agree on it are equal.
-/

namespace ByteMachine

structure Memory (size : Nat) where
  cells : Vector Byte size
  deriving DecidableEq

namespace Memory

variable {size : Nat}

def zeros : Memory size := ⟨Vector.replicate size 0⟩

instance : Inhabited (Memory size) := ⟨zeros⟩

/-- The content of a cell, for an address that has one. -/
def get? (memory : Memory size) (address : Nat) : Option Byte :=
  memory.cells[address]?

def read (memory : Memory size) (address : Nat) : Except Fault Byte :=
  match memory.get? address with
  | some value => .ok value
  | none => .error (.addressOutOfRange address)

/-- Changes one cell. An address outside the memory changes none. -/
def set (memory : Memory size) (address : Nat) (value : Byte) : Memory size :=
  ⟨memory.cells.setIfInBounds address value⟩

/-- The memory with a run of cells replaced, as far as it reaches. -/
def overwrite (memory : Memory size) (start : Nat) (bytes : Array Byte) : Memory size :=
  ⟨Vector.ofFn fun cell : Fin size =>
    if cell.val < start then memory.cells[cell]
    else bytes.getD (cell.val - start) memory.cells[cell]⟩

end Memory

/-- An action on the memory. -/
abbrev Edit (size : Nat) := EStateM Fault (Memory size)

namespace Edit

variable {size : Nat}

def write (address : Nat) (value : Byte) : Edit size Unit := do
  if address < size then modify (·.set address value)
  else throw (.addressOutOfRange address)

/-- Replaces a run of cells in one move. The fault of a run that does not fit names the first
address of it that does not exist. -/
def writeBlock (start : Nat) (bytes : Array Byte) : Edit size Unit := do
  if start + bytes.size ≤ size then modify (·.overwrite start bytes)
  else throw (.addressOutOfRange (max start size))

theorem write_apply (address : Nat) (value : Byte) (memory : Memory size) :
    write address value memory =
      if address < size then .ok () (memory.set address value)
      else .error (.addressOutOfRange address) memory := by
  unfold write
  split <;> rfl

theorem writeBlock_apply (start : Nat) (bytes : Array Byte) (memory : Memory size) :
    writeBlock start bytes memory =
      if start + bytes.size ≤ size then .ok () (memory.overwrite start bytes)
      else .error (.addressOutOfRange (max start size)) memory := by
  unfold writeBlock
  split <;> rfl

/-- What an action makes of a memory, for a caller who gives the memory up when it faults. -/
def result (edit : Edit size Unit) (memory : Memory size) : Except Fault (Memory size) :=
  match edit memory with
  | .ok _ after => .ok after
  | .error fault _ => .error fault

end Edit

namespace Memory

variable {size : Nat}

/-- A written memory. What a write that faults has left of the old one is told by the action. -/
def write (memory : Memory size) (address : Nat) (value : Byte) : Except Fault (Memory size) :=
  (Edit.write address value).result memory

def writeBlock (memory : Memory size) (start : Nat) (bytes : Array Byte) :
    Except Fault (Memory size) :=
  (Edit.writeBlock start bytes).result memory

/-- A memory that begins with the given bytes and is zero after them. -/
def ofBytes (bytes : Array Byte) : Except Fault (Memory size) :=
  zeros.writeBlock 0 bytes

@[ext] theorem ext_get? {left right : Memory size}
    (h : ∀ address, left.get? address = right.get? address) : left = right := by
  obtain ⟨left⟩ := left
  obtain ⟨right⟩ := right
  congr 1
  apply Vector.ext
  intro i bound
  have same := h i
  simpa [get?, bound] using same

theorem get?_eq_none_iff {memory : Memory size} {address : Nat} :
    memory.get? address = none ↔ size ≤ address := by
  simp [get?]

theorem lt_of_get? {memory : Memory size} {address : Nat} {value : Byte}
    (stored : memory.get? address = some value) : address < size :=
  Nat.lt_of_not_le fun outside => nomatch (get?_eq_none_iff.mpr outside).symm.trans stored

theorem get?_of_lt {address : Nat} (memory : Memory size) (bound : address < size) :
    ∃ value, memory.get? address = some value :=
  ⟨memory.cells[address], by simp [get?, bound]⟩

theorem get?_zeros (address : Nat) :
    (zeros : Memory size).get? address = if address < size then some 0 else none := by
  simp only [get?, zeros, Vector.getElem?_replicate]

theorem get?_set (memory : Memory size) (address other : Nat) (value : Byte) :
    (memory.set address value).get? other =
      if address = other then (if other < size then some value else none)
      else memory.get? other := by
  simp only [get?, set, Vector.getElem?_setIfInBounds]
  by_cases same : address = other
  · subst same
    simp
  · simp [same]

theorem get?_overwrite (memory : Memory size) (start address : Nat) (bytes : Array Byte) :
    (memory.overwrite start bytes).get? address =
      if start ≤ address ∧ address < start + bytes.size ∧ address < size then
        bytes[address - start]?
      else memory.get? address := by
  by_cases bound : address < size
  · by_cases before : address < start
    · have : ¬ start ≤ address := by omega
      simp [get?, overwrite, bound, before, this]
    · by_cases reached : address < start + bytes.size
      · have inside : address - start < bytes.size := by omega
        have : start ≤ address := by omega
        simp [get?, overwrite, Array.getD, bound, before, reached, inside, this]
      · have outside : ¬ address - start < bytes.size := by omega
        simp [get?, overwrite, Array.getD, bound, before, reached, outside]
  · simp [get?, bound]

end Memory

end ByteMachine
