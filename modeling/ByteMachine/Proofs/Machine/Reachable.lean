import ByteMachine.Proofs.Machine.History

/-! The machines that can be reached from the start, whatever the memory holds. The program counter
is moved on without a check, so what bounds it is that the bytes of an instruction have all been
fetched before, and that a jump goes to a byte. -/
namespace ByteMachine

variable {size : Nat}

namespace Opcode

theorem operandCount_le (opcode : Opcode) : opcode.operandCount ≤ 2 := by
  cases opcode <;> decide

theorem toNat_length (opcode : Opcode) : (UInt16.ofNat opcode.length).toNat = opcode.length := by
  have small : opcode.length < 2 ^ 16 := by
    have few := opcode.operandCount_le
    unfold length
    omega
  exact UInt16.toNat_ofNat_of_lt' small

end Opcode

namespace Memory

variable {memory : Memory size} {pc : Address} {opcode : Opcode}

theorem lt_of_operand {position : Nat} {value : Byte} (taken : position ≤ opcode.operandCount)
    (fetched : memory.operand opcode pc position = .ok value) : pc.toNat + position < size := by
  rw [operand, if_pos taken] at fetched
  exact lt_of_get? (fetch_eq_ok.mp fetched).2

/-- An instruction that can be fetched ends within the memory. -/
theorem length_le_of_encodingAt {a b : Byte} (encoded : memory.encodingAt pc = .ok (opcode, a, b)) :
    pc.toNat + opcode.length ≤ size := by
  obtain ⟨known, first, second⟩ := encodingAt_eq_ok.mp encoded
  obtain ⟨byte, stored, _⟩ := opcodeAt_eq_ok.mp known
  have inside := lt_of_get? stored
  have few := opcode.operandCount_le
  unfold Opcode.length
  by_cases two : 2 ≤ opcode.operandCount
  · have last := lt_of_operand two second
    omega
  · by_cases one : 1 ≤ opcode.operandCount
    · have last := lt_of_operand one first
      omega
    · omega

end Memory

namespace Configuration

variable {c after : Configuration size} {i : Instruction}

theorem toNat_pc_advance (opcode : Opcode) (fits : c.pc.toNat + opcode.length ≤ 0xFFFF) :
    (c.advance opcode .next).pc.toNat = c.pc.toNat + opcode.length := by
  change (c.pc + UInt16.ofNat opcode.length).toNat = _
  rw [UInt16.toNat_add, opcode.toNat_length]
  exact Nat.mod_eq_of_lt (Nat.lt_succ_of_le fits)

theorem length_le_of_current (current : c.current? = some i) :
    c.pc.toNat + i.opcode.length ≤ size := by
  obtain ⟨_, instruction⟩ := current?_eq_some.mp current
  obtain ⟨opcode, a, b, encoded, decoded⟩ := Memory.instructionAt_eq_ok.mp instruction
  rw [Instruction.opcode_of_decode decoded]
  exact Memory.length_le_of_encodingAt encoded

theorem Performs.pc {flow : Flow} (effect : Performs c i flow after) : after.pc = c.pc := by
  cases effect with
  | hlt | ldi | prn | arithmetic | push | pop | call | ret | cmp | jmp | taken | passed => rfl

/-- A jump goes to the content of a register or of a stack cell. -/
theorem Performs.jump_le {target : Address} (effect : Performs c i (.jump target) after) :
    target.toNat ≤ 0xFF := by
  cases effect with
  | call | ret | jmp | taken =>
    rw [UInt8.toNat_toUInt16]
    exact Nat.le_of_lt_succ (UInt8.toNat_lt _)

/-- An instruction ends within the memory, and anything else is a byte address. -/
theorem Performs.pc_le {flow : Flow} (addressable : size ≤ 0xFFFF) (current : c.current? = some i)
    (effect : Performs c i flow after) :
    (after.advance i.opcode flow).pc.toNat ≤ max size 0xFF := by
  cases flow with
  | next =>
    have fits := length_le_of_current current
    rw [toNat_pc_advance _ (by rw [effect.pc]; omega), effect.pc]
    omega
  | jump target =>
    have byte := effect.jump_le
    exact Nat.le_trans byte (Nat.le_max_right _ _)

end Configuration

namespace Machine

open Exec

variable {machine : Machine size}

theorem pc_after_le (addressable : size ≤ 0xFFFF) (first : machine.processor.pc = 0) (count : Nat) :
    (machine.after count).configuration.pc.toNat ≤ max size 0xFF := by
  induction count with
  | zero =>
    change machine.processor.pc.toNat ≤ _
    rw [first]
    exact Nat.zero_le _
  | succ count ih =>
    obtain ⟨i, flow, c, _, current, effect, left⟩ | ⟨_, left⟩ := executes?_cases machine count
    · rw [left]
      exact effect.pc_le addressable current
    · rwa [left]

/-- A halted machine stays the same machine for ever, its log included. -/
theorem after_of_halted (halted : machine.isHalted = true) (later : Nat) :
    machine.after later = machine := by
  induction later with
  | zero => rfl
  | succ later ih =>
    rw [Machine.after, ih, leaves, step_of_halted halted]

/-- In every reachable machine the program counter is within the memory, just behind it or a byte;
at most one flag is set, and none only before the first comparison; and the machine is halted
exactly by the halt instruction, after which it never changes. What the next step adds to the
program counter, as the return address of a call or to move on, does not overflow. -/
theorem reachable_states (addressable : size ≤ 0xFFFF) (memory : Memory size) (count : Nat) :
    let machine := (start memory).after count
    let c := machine.configuration
    let history := (start memory).history count
    c.pc.toNat ≤ max size 255 ∧
    c.processor.flags ∈ Flags.outcomes ∧
    (c.processor.flags = .clear → ∀ left right, .cmp left right ∉ history) ∧
    (c.isHalted = true ↔ history.getLast? = some .hlt) ∧
    (∀ opcode a b, c.memory.encodingAt c.pc = .ok (opcode, a, b) →
      c.pc.toNat + opcode.length ≤ 0xFFFF ∧ (opcode = .call → c.pc.toNat + 2 ≤ 0xFFFF)) ∧
    (c.isHalted = true → ∀ later, step (machine.after later) = .ok .halted machine) := by
  intro machine c history
  have flags : c.processor.flags = _ := flags_after rfl count
  refine ⟨pc_after_le addressable rfl count, ?_, ?_, isHalted_after_iff rfl count, ?_, ?_⟩
  · rw [flags]
    cases ((start memory).comparisons count).getLast? with
    | none => exact List.mem_cons_self
    | some pair => exact List.mem_cons_of_mem _ (Flags.compare_mem_compared pair.1 pair.2)
  · intro clear
    rw [← comparisons_eq_nil_iff, ← List.getLast?_eq_none_iff]
    cases last : ((start memory).comparisons count).getLast? with
    | none => rfl
    | some pair =>
      rw [flags, last] at clear
      exact absurd clear (Flags.compare_ne_clear pair.1 pair.2)
  · intro opcode a b encoded
    have fits := Nat.le_trans (Memory.length_le_of_encodingAt encoded) addressable
    refine ⟨fits, ?_⟩
    rintro rfl
    exact fits
  · intro halted later
    rw [after_of_halted halted]
    exact step_of_halted halted

/-- A program whose halt is the last byte of the memory. -/
theorem reached_behind_last_byte :
    let machine := (start (Memory.zeros.overwrite 0 #[0xA0, 0, 7, 1] : Memory 4)).after 2
    machine.configuration.isHalted = true ∧
      machine.configuration.pc.toNat ≤ max 4 255 ∧
      machine.configuration.processor.flags = ⟨Flags.less⟩ ∧
      ∀ later, step (machine.after later) = .ok .halted machine := by
  intro machine
  have halted : machine.configuration.isHalted = true := by decide +kernel
  obtain ⟨bound, _, _, _, _, rests⟩ := reachable_states (by decide)
    (Memory.zeros.overwrite 0 #[0xA0, 0, 7, 1] : Memory 4) 2
  exact ⟨halted, bound, by decide +kernel, rests halted⟩

end Machine

end ByteMachine
