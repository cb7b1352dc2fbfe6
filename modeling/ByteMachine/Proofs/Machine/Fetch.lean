import ByteMachine.Proofs.Except
import ByteMachine.Proofs.Machine.Configuration

/-! Fetching and decoding as one reading of the memory. The processor always reads two bytes past
the opcode; here only those that the opcode takes are read, and the two readings are shown to give
the same instruction or the same fault. -/
namespace ByteMachine

variable {size : Nat}

namespace Instruction

/-- Decoding looks at the operands that the opcode takes and at no others. -/
theorem decode_congr (opcode : Opcode) {a b a' b' : Byte}
    (first : 1 ≤ opcode.operandCount → a = a') (second : 2 ≤ opcode.operandCount → b = b') :
    decode opcode a b = decode opcode a' b' := by
  cases opcode with
  | hlt | ret => rfl
  | prn | pop | push | call | jmp | jeq | jne => rw [first (by decide)]; rfl
  | ldi | mul | add | cmp => rw [first (by decide), second (by decide)]

theorem opcode_of_decode {opcode : Opcode} {a b : Byte} {i : Instruction}
    (h : decode opcode a b = .ok i) : i.opcode = opcode := by
  cases opcode with
  | hlt | ret => cases h; rfl
  | ldi | prn | pop | push | call | jmp | jeq | jne =>
    obtain ⟨target, _, rfl⟩ := map_eq_ok.mp h
    rfl
  | mul | add | cmp =>
    obtain ⟨target, _, rest⟩ := bind_eq_ok.mp h
    obtain ⟨source, _, same⟩ := bind_eq_ok.mp rest
    cases same
    rfl

end Instruction

namespace Memory

/-- How many cells of a memory have an address. -/
def reach (size : Nat) : Nat := min size addressCount

/-- The byte that lies the given distance past an address. -/
def fetch (memory : Memory size) (pc : Address) (distance : Nat) : Except Fault Byte :=
  if pc.toNat + distance < addressCount then memory.read (pc.toNat + distance)
  else .error (.addressOutOfRange (pc.toNat + distance))

/-- An operand byte of the opcode at an address, or zero if the opcode does not take it. -/
def operand (memory : Memory size) (opcode : Opcode) (pc : Address) (position : Nat) :
    Except Fault Byte :=
  if position ≤ opcode.operandCount then memory.fetch pc position else .ok 0

def opcodeAt (memory : Memory size) (pc : Address) : Except Fault Opcode :=
  match memory.read pc.toNat with
  | .error fault => .error fault
  | .ok byte =>
    match Opcode.ofByte? byte with
    | some opcode => .ok opcode
    | none => .error (.invalidOpcode byte pc)

/-- The opcode at an address with its operands. -/
def encodingAt (memory : Memory size) (pc : Address) : Except Fault (Opcode × Byte × Byte) := do
  let opcode ← memory.opcodeAt pc
  let a ← memory.operand opcode pc 1
  let b ← memory.operand opcode pc 2
  return (opcode, a, b)

/-- The instruction at an address, or the fault that fetching or decoding it meets first. -/
def instructionAt (memory : Memory size) (pc : Address) : Except Fault Instruction := do
  let (opcode, a, b) ← memory.encodingAt pc
  (Instruction.decode opcode a b).mapError (.invalidRegister · pc)

theorem read_eq_ok {memory : Memory size} {address : Nat} {value : Byte} :
    memory.read address = .ok value ↔ memory.get? address = some value := by
  unfold read
  cases memory.get? address <;> simp

theorem read_eq_error {memory : Memory size} {address : Nat} {fault : Fault} :
    memory.read address = .error fault ↔
      memory.get? address = none ∧ fault = .addressOutOfRange address := by
  unfold read
  cases memory.get? address <;> simp [eq_comm]

theorem reach_eq {size : Nat} (fits : size ≤ addressCount) : reach size = size :=
  Nat.min_eq_left fits

variable {memory : Memory size} {pc : Address}

theorem fetch_eq_ok {distance : Nat} {value : Byte} :
    memory.fetch pc distance = .ok value ↔ pc.toNat + distance < addressCount ∧
      memory.get? (pc.toNat + distance) = some value := by
  unfold fetch
  split
  · rename_i addressable
    rw [read_eq_ok]
    exact (and_iff_right addressable).symm
  · rename_i behind
    exact iff_of_false nofun fun ⟨addressable, _⟩ => behind addressable

/-- What cannot be fetched is behind the end of the memory or behind the last address. -/
theorem fetch_eq_error {distance : Nat} {fault : Fault} :
    memory.fetch pc distance = .error fault ↔ reach size ≤ pc.toNat + distance ∧
      fault = .addressOutOfRange (pc.toNat + distance) := by
  unfold fetch reach
  split
  · rw [read_eq_error, get?_eq_none_iff]
    refine and_congr_left fun _ => ?_
    omega
  · rw [Except.error.injEq, eq_comm]
    refine (and_iff_right ?_).symm
    omega

/-- Every value of the program counter is an address, so the opcode is simply read. -/
theorem fetch_zero (memory : Memory size) (pc : Address) :
    memory.fetch pc 0 = memory.read pc.toNat :=
  if_pos pc.toNat_lt

theorem opcodeAt_eq_ok {opcode : Opcode} :
    memory.opcodeAt pc = .ok opcode ↔
      ∃ byte, memory.get? pc.toNat = some byte ∧ Opcode.ofByte? byte = some opcode := by
  unfold opcodeAt Memory.read
  cases memory.get? pc.toNat with
  | none => simp
  | some byte => cases named : Opcode.ofByte? byte <;> simp [named]

theorem opcodeAt_eq_error {fault : Fault} :
    memory.opcodeAt pc = .error fault ↔
      (memory.get? pc.toNat = none ∧ fault = .addressOutOfRange pc.toNat) ∨
      ∃ byte, memory.get? pc.toNat = some byte ∧ Opcode.ofByte? byte = none ∧
        fault = .invalidOpcode byte pc := by
  unfold opcodeAt Memory.read
  cases memory.get? pc.toNat with
  | none => simp [eq_comm]
  | some byte => cases named : Opcode.ofByte? byte <;> simp [named, eq_comm]

theorem operand_eq_error {opcode : Opcode} {position : Nat} {fault : Fault}
    (absent : memory.operand opcode pc position = .error fault) :
    fault = .addressOutOfRange (pc.toNat + position) := by
  unfold operand at absent
  split at absent
  · exact (fetch_eq_error.mp absent).2
  · contradiction

theorem encodingAt_eq_ok {opcode : Opcode} {a b : Byte} :
    memory.encodingAt pc = .ok (opcode, a, b) ↔ memory.opcodeAt pc = .ok opcode ∧
      memory.operand opcode pc 1 = .ok a ∧ memory.operand opcode pc 2 = .ok b := by
  simp only [encodingAt, bind_eq_ok, pure, Except.pure, Except.ok.injEq, Prod.mk.injEq]
  constructor
  · rintro ⟨_, known, _, first, _, second, rfl, rfl, rfl⟩
    exact ⟨known, first, second⟩
  · rintro ⟨known, first, second⟩
    exact ⟨_, known, _, first, _, second, rfl, rfl, rfl⟩

theorem encodingAt_eq_error {fault : Fault} :
    memory.encodingAt pc = .error fault ↔ memory.opcodeAt pc = .error fault ∨
      ∃ opcode, memory.opcodeAt pc = .ok opcode ∧ (memory.operand opcode pc 1 = .error fault ∨
        ∃ a, memory.operand opcode pc 1 = .ok a ∧ memory.operand opcode pc 2 = .error fault) := by
  simp only [encodingAt, bind_eq_error, pure, Except.pure, reduceCtorEq, and_false, exists_false,
    or_false]

theorem instructionAt_eq_ok {i : Instruction} :
    memory.instructionAt pc = .ok i ↔ ∃ opcode a b, memory.encodingAt pc = .ok (opcode, a, b) ∧
      Instruction.decode opcode a b = .ok i := by
  simp only [instructionAt, bind_eq_ok, mapError_eq_ok, Prod.exists]

theorem instructionAt_eq_error {fault : Fault} :
    memory.instructionAt pc = .error fault ↔ memory.encodingAt pc = .error fault ∨
      ∃ opcode a b, memory.encodingAt pc = .ok (opcode, a, b) ∧
        ∃ index, Instruction.decode opcode a b = .error index ∧
          .invalidRegister index pc = fault := by
  simp only [instructionAt, bind_eq_error, mapError_eq_error, Prod.exists]

/-- Bytes of an encoding that another memory has as well, of whatever size it is. -/
def Shares (memory : Memory size) {other : Nat} (image : Memory other)
    (start length : Nat) : Prop :=
  ∀ k < length, ∀ value, memory.get? (start + k) = some value →
    image.get? (start + k) = some value

section Shares

variable {other : Nat} {image : Memory other} {opcode : Opcode}

theorem opcodeAt_of_shares (known : memory.opcodeAt pc = .ok opcode)
    (shares : memory.Shares image pc.toNat opcode.length) : image.opcodeAt pc = .ok opcode := by
  obtain ⟨byte, content, named⟩ := opcodeAt_eq_ok.mp known
  exact opcodeAt_eq_ok.mpr ⟨byte, shares 0 (Nat.succ_pos _) byte content, named⟩

theorem operand_of_shares {position : Nat} {value : Byte}
    (taken : memory.operand opcode pc position = .ok value)
    (shares : memory.Shares image pc.toNat opcode.length) :
    image.operand opcode pc position = .ok value := by
  unfold operand at taken ⊢
  split
  · rename_i within
    rw [if_pos within] at taken
    obtain ⟨addressable, stored⟩ := fetch_eq_ok.mp taken
    exact fetch_eq_ok.mpr ⟨addressable, shares position (Nat.lt_succ_of_le within) value stored⟩
  · rename_i beyond
    rwa [if_neg beyond] at taken

theorem encodingAt_of_shares {a b : Byte} (encoded : memory.encodingAt pc = .ok (opcode, a, b))
    (shares : memory.Shares image pc.toNat opcode.length) :
    image.encodingAt pc = .ok (opcode, a, b) := by
  obtain ⟨known, first, second⟩ := encodingAt_eq_ok.mp encoded
  exact encodingAt_eq_ok.mpr ⟨opcodeAt_of_shares known shares, operand_of_shares first shares,
    operand_of_shares second shares⟩

/-- An instruction is known by its own bytes. -/
theorem instructionAt_of_shares {i : Instruction} (decoded : memory.instructionAt pc = .ok i)
    (shares : memory.Shares image pc.toNat i.opcode.length) : image.instructionAt pc = .ok i := by
  obtain ⟨opcode, a, b, encoded, known⟩ := instructionAt_eq_ok.mp decoded
  rw [Instruction.opcode_of_decode known] at shares
  exact instructionAt_eq_ok.mpr ⟨opcode, a, b, encodingAt_of_shares encoded shares, known⟩

end Shares

end Memory

namespace Exec

open Memory

variable {machine : Machine size}

theorem fetch_apply (distance : Nat) :
    fetch distance machine =
      match machine.memory.fetch machine.processor.pc distance with
      | .ok value => .ok value machine
      | .error fault => .error fault machine := by
  simp only [fetch, processor, bind_apply, ite_apply, throw_apply, Memory.fetch]
  split
  · rfl
  · rfl

theorem fetchOpcode_apply :
    fetchOpcode machine =
      match machine.memory.opcodeAt machine.processor.pc with
      | .ok opcode => .ok opcode machine
      | .error fault => .error fault machine := by
  simp only [fetchOpcode, bind_apply, fetch_apply, fetch_zero, opcodeAt]
  cases machine.memory.read machine.processor.pc.toNat with
  | error fault => rfl
  | ok byte =>
    cases known : Opcode.ofByte? byte with
    | none => simp only [known]; rfl
    | some opcode => simp only [known]; rfl

/-- Fetching an operand that the opcode does not take cannot fault, whatever it reads. -/
theorem fetchOperand_of_ok {opcode : Opcode} {position : Nat} {value : Byte}
    (h : machine.memory.operand opcode machine.processor.pc position = .ok value) :
    ∃ fetched, fetchOperand opcode position machine = .ok fetched machine ∧
      (position ≤ opcode.operandCount → fetched = value) := by
  unfold operand at h
  by_cases taken : position ≤ opcode.operandCount
  · rw [if_pos taken] at h
    exact ⟨value, by simp only [fetchOperand, if_pos taken, fetch_apply, h], fun _ => rfl⟩
  · refine ⟨(machine.memory.fetch machine.processor.pc position).toOption.getD 0, ?_,
      fun h => absurd h taken⟩
    simp only [fetchOperand, if_neg taken]
    change EStateM.tryCatch _ _ machine = _
    unfold EStateM.tryCatch
    simp only [fetch_apply]
    cases machine.memory.fetch machine.processor.pc position <;> rfl

theorem fetchOperand_of_error {opcode : Opcode} {position : Nat} {fault : Fault}
    (h : machine.memory.operand opcode machine.processor.pc position = .error fault) :
    fetchOperand opcode position machine = .error fault machine := by
  unfold operand at h
  split at h
  · rename_i taken
    simp only [fetchOperand, if_pos taken, fetch_apply, h]
  · contradiction

end Exec

end ByteMachine
