import ByteMachine.Proofs.Machine.Fetch

/-! Instructions as the bytes that encode them, programs as these bytes one instruction behind
another, and memories that hold them. What the processor fetches where the bytes of an instruction
are held is that instruction. -/
namespace ByteMachine

variable {size : Nat}

/-- An opcode with as many operand bytes as it takes. -/
@[ext] structure Encoding where
  opcode : Opcode
  operands : List Byte
  complete : operands.length = opcode.operandCount
  deriving DecidableEq

namespace Encoding

def bytes (item : Encoding) : List Byte := item.opcode.byte :: item.operands

/-- The bytes of a program. -/
def image (program : List Encoding) : List Byte := program.flatMap bytes

theorem length_bytes (item : Encoding) : item.bytes.length = item.opcode.length :=
  congrArg (· + 1) item.complete

theorem image_cons (item : Encoding) (program : List Encoding) :
    image (item :: program) = item.bytes ++ image program :=
  List.flatMap_cons

theorem image_append (first second : List Encoding) :
    image (first ++ second) = image first ++ image second :=
  List.flatMap_append

end Encoding

namespace Memory

/-- The bytes lie in a row from an address on. -/
def Holds (memory : Memory size) (address : Nat) (bytes : List Byte) : Prop :=
  ∀ k < bytes.length, memory.get? (address + k) = bytes[k]?

/-- The memory consists of the bytes and of zeros after them. -/
structure BeginsWith (memory : Memory size) (bytes : List Byte) : Prop where
  fits : bytes.length ≤ size
  cell : ∀ address < size, memory.get? address = some (bytes.getD address 0)

variable {memory : Memory size} {address : Nat}

theorem holds_append {front back : List Byte} :
    memory.Holds address (front ++ back) ↔
      memory.Holds address front ∧ memory.Holds (address + front.length) back := by
  constructor
  · intro held
    constructor
    · intro k within
      rw [held k (by rw [List.length_append]; omega), List.getElem?_append_left within]
    · intro k within
      rw [Nat.add_assoc, held _ (by rw [List.length_append]; omega),
        List.getElem?_append_right (Nat.le_add_right _ _), Nat.add_sub_cancel_left]
  · rintro ⟨first, second⟩ k within
    by_cases early : k < front.length
    · rw [List.getElem?_append_left early, first k early]
    · obtain ⟨rest, rfl⟩ := Nat.exists_eq_add_of_le (Nat.le_of_not_lt early)
      rw [List.length_append] at within
      rw [List.getElem?_append_right (Nat.le_add_right _ _), Nat.add_sub_cancel_left,
        ← Nat.add_assoc, second rest (by omega)]

theorem holds_cons {byte : Byte} {bytes : List Byte} :
    memory.Holds address (byte :: bytes) ↔
      memory.get? address = some byte ∧ memory.Holds (address + 1) bytes := by
  have front : memory.Holds address [byte] ↔ memory.get? address = some byte := by
    constructor
    · intro held
      exact held 0 Nat.zero_lt_one
    · intro stored k within
      cases Nat.lt_one_iff.mp within
      exact stored
  rw [← List.singleton_append, holds_append, front, List.length_singleton]

theorem BeginsWith.holds {bytes : List Byte} (begins : memory.BeginsWith bytes) :
    memory.Holds 0 bytes := by
  intro k within
  rw [Nat.zero_add, begins.cell k (Nat.lt_of_lt_of_le within begins.fits),
    List.getD_eq_getElem?_getD, List.getElem?_eq_getElem within, Option.getD_some]

theorem beginsWith_overwrite {bytes : List Byte} (fits : bytes.length ≤ size) :
    (zeros.overwrite 0 bytes.toArray : Memory size).BeginsWith bytes where
  fits := fits
  cell address inside := by
    rw [get?_overwrite, List.getD_eq_getElem?_getD]
    by_cases covered : address < bytes.length
    · simp [covered, inside]
    · simp [covered, inside, get?_zeros]

section Holds

variable {item : Encoding} {pc : Address} (addressable : size ≤ addressCount)

include addressable

/-- Only the operands that the opcode takes are read; the others count as zero. -/
theorem operand_of_holds (held : memory.Holds (pc.toNat + 1) item.operands) (position : Nat) :
    memory.operand item.opcode pc (position + 1) = .ok (item.operands.getD position 0) := by
  have complete := item.complete
  unfold operand
  split
  · rename_i taken
    have within : position < item.operands.length := by omega
    have stored := held position within
    rw [List.getElem?_eq_getElem within, Nat.add_assoc, Nat.add_comm 1] at stored
    rw [List.getD_eq_getElem?_getD, List.getElem?_eq_getElem within, Option.getD_some]
    exact fetch_eq_ok.mpr ⟨Nat.lt_of_lt_of_le (lt_of_get? stored) addressable, stored⟩
  · rename_i beyond
    rw [List.getD_eq_getElem?_getD, List.getElem?_eq_none (by omega), Option.getD_none]

theorem encodingAt_of_holds (held : memory.Holds pc.toNat item.bytes) :
    memory.encodingAt pc =
      .ok (item.opcode, item.operands.getD 0 0, item.operands.getD 1 0) := by
  obtain ⟨stored, operands⟩ := holds_cons.mp held
  rw [encodingAt_eq_ok]
  refine ⟨?_, operand_of_holds addressable operands 0, operand_of_holds addressable operands 1⟩
  exact opcodeAt_eq_ok.mpr ⟨item.opcode.byte, stored, item.opcode.ofByte?_byte⟩

end Holds

end Memory

namespace Instruction

/-- The operand byte that names a register. -/
def operand (register : Register) : Byte := UInt8.ofNat register.val

def operands : Instruction → List Byte
  | ldi target value => [operand target, value]
  | arithmetic _ left right | cmp left right => [operand left, operand right]
  | prn register | push register | pop register | call register | jmp register
  | branch _ register => [operand register]
  | hlt | ret => []

def encoding (i : Instruction) : Encoding where
  opcode := i.opcode
  operands := i.operands
  complete := by
    rw [Opcode.operandCount_eq]
    cases i with
    | arithmetic operation => cases operation <;> rfl
    | branch condition => cases condition <;> rfl
    | hlt | ldi | prn | push | pop | call | ret | cmp | jmp => rfl

theorem register_operand (r : Register) : register (operand r) = .ok r := by
  have small : (operand r).toNat = r.val := Nat.mod_eq_of_lt (Nat.lt_trans r.isLt (by decide))
  have bound : (operand r).toNat < 8 := small ▸ r.isLt
  have same : (⟨(operand r).toNat, bound⟩ : Register) = r := Fin.ext small
  simp only [register, Register.ofByte?, dif_pos bound, same]

theorem decode_operands (i : Instruction) :
    decode i.opcode (i.operands.getD 0 0) (i.operands.getD 1 0) = .ok i := by
  cases i with
  | hlt | ret => rfl
  | arithmetic operation left right =>
    cases operation <;>
      simp [decode, opcode, Arithmetic.opcode, operands, register_operand, bind, Except.bind, pure,
        Except.pure]
  | cmp left right =>
    simp [decode, opcode, operands, register_operand, bind, Except.bind, pure, Except.pure]
  | branch condition register =>
    cases condition <;> simp [decode, opcode, operands, register_operand, Except.map]
  | ldi | prn | push | pop | call | jmp =>
    simp [decode, opcode, operands, register_operand, Except.map]

theorem operand_of_register {byte : Byte} {r : Register} (named : register byte = .ok r) :
    operand r = byte := by
  unfold register Register.ofByte? at named
  split at named
  · rename_i bound
    split at bound
    · cases bound
      cases named
      exact UInt8.ofNat_toNat
    · contradiction
  · contradiction

/-- An instruction keeps the operand bytes that it was decoded from. -/
theorem operands_of_decode {opcode : Opcode} {a b : Byte} {i : Instruction}
    (decoded : decode opcode a b = .ok i) : i.operands = [a, b].take opcode.operandCount := by
  rw [Opcode.operandCount_eq]
  cases opcode with
  | hlt | ret =>
    cases decoded
    rfl
  | ldi | prn | pop | push | call | jmp | jeq | jne =>
    obtain ⟨target, first, rfl⟩ := map_eq_ok.mp decoded
    rw [← operand_of_register first]
    rfl
  | mul | add | cmp =>
    obtain ⟨left, first, rest⟩ := bind_eq_ok.mp decoded
    obtain ⟨right, second, same⟩ := bind_eq_ok.mp rest
    cases same
    rw [← operand_of_register first, ← operand_of_register second]
    rfl

end Instruction

namespace Memory

variable {memory : Memory size} {pc : Address} {i : Instruction}

/-- An instruction is found where its encoding is held. -/
theorem instructionAt_of_holds (addressable : size ≤ addressCount)
    (held : memory.Holds pc.toNat i.encoding.bytes) : memory.instructionAt pc = .ok i :=
  instructionAt_eq_ok.mpr ⟨_, _, _, encodingAt_of_holds addressable held, i.decode_operands⟩

theorem holds_operands {opcode : Opcode} {a b : Byte}
    (encoded : memory.encodingAt pc = .ok (opcode, a, b)) :
    memory.Holds (pc.toNat + 1) ([a, b].take opcode.operandCount) := by
  obtain ⟨_, first, second⟩ := encodingAt_eq_ok.mp encoded
  intro k within
  rw [List.length_take] at within
  have taken : k + 1 ≤ opcode.operandCount := by omega
  have few : k < 2 := Nat.lt_of_lt_of_le within (Nat.min_le_right _ _)
  have stored {value : Byte} (fetched : memory.operand opcode pc (k + 1) = .ok value) :
      memory.get? (pc.toNat + 1 + k) = some value := by
    rw [operand, if_pos taken] at fetched
    rw [Nat.add_assoc, Nat.add_comm 1 k]
    exact (fetch_eq_ok.mp fetched).2
  rw [List.getElem?_take_of_lt taken]
  match k, few with
  | 0, _ => exact stored first
  | 1, _ => exact stored second

/-- And only there. -/
theorem holds_of_instructionAt (decoded : memory.instructionAt pc = .ok i) :
    memory.Holds pc.toNat i.encoding.bytes := by
  obtain ⟨opcode, a, b, encoded, known⟩ := instructionAt_eq_ok.mp decoded
  obtain ⟨byte, stored, named⟩ := opcodeAt_eq_ok.mp (encodingAt_eq_ok.mp encoded).1
  have operands := holds_operands encoded
  rw [← Instruction.operands_of_decode known] at operands
  refine holds_cons.mpr ⟨?_, operands⟩
  change memory.get? pc.toNat = some i.opcode.byte
  rw [Instruction.opcode_of_decode known, Opcode.byte_of_ofByte? named]
  exact stored

end Memory

end ByteMachine
