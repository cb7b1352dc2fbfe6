import ByteMachine.Log
import ByteMachine.Memory.Basic

/-!
The memory as log records, sixteen cells to a row. Rows of zeros are left out, so the address at
the head of a row is what places it.
-/

namespace ByteMachine.Memory

open Text

variable {size : Nat}

def rowLength : Nat := 16

def rowCount (size : Nat) : Nat :=
  (size + rowLength - 1) / rowLength

/-- The cells of a row. The last one is shorter when the size is no multiple of the row length. -/
def row (memory : Memory size) (index : Nat) : List Byte :=
  (memory.cells.toArray.extract (rowLength * index) (rowLength * index + rowLength)).toList

def rowText (index : Nat) (bytes : List Byte) : String :=
  upperHex 4 (rowLength * index) ++ ": " ++ " ".intercalate (bytes.map fun b => upperHex 2 b.toNat)

def rowRecord? (memory : Memory size) (index : Nat) : Option Record :=
  let bytes := memory.row index
  if bytes.all (· == 0) then none else some ⟨.info, .memory, rowText index bytes⟩

def dump (memory : Memory size) : List Record :=
  (List.range (rowCount size)).filterMap memory.rowRecord?

end ByteMachine.Memory
