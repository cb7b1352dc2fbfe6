import ByteMachine.Proofs.Machine.Trail

/-! Which addresses a machine calls missing. Fetching and the stack only ever miss cells that the
memory has not got. A call says the same of the address it returns to when that address is no byte,
and in a memory of more than 256 cells this address may well exist. -/
namespace ByteMachine

variable {size : Nat}

namespace Memory

variable {memory : Memory size} {pc : Address} {address : Nat}

theorem le_of_opcodeAt (missed : memory.opcodeAt pc = .error (.addressOutOfRange address)) :
    reach size ≤ address := by
  rcases opcodeAt_eq_error.mp missed with ⟨missing, same⟩ | ⟨byte, _, _, impossible⟩
  · cases same
    exact Nat.le_trans (Nat.min_le_left _ _) (get?_eq_none_iff.mp missing)
  · cases impossible

theorem le_of_operand {opcode : Opcode} {position : Nat}
    (missed : memory.operand opcode pc position = .error (.addressOutOfRange address)) :
    reach size ≤ address := by
  unfold operand at missed
  split at missed
  · obtain ⟨behind, same⟩ := fetch_eq_error.mp missed
    cases same
    exact behind
  · contradiction

/-- The processor looks for an instruction and its operands only where they have to be. -/
theorem le_of_instructionAt
    (missed : memory.instructionAt pc = .error (.addressOutOfRange address)) :
    reach size ≤ address := by
  rcases instructionAt_eq_error.mp missed with unfetched | ⟨_, _, _, _, _, _, impossible⟩
  · rcases encodingAt_eq_error.mp unfetched with unknown | ⟨_, _, first | ⟨_, _, second⟩⟩
    · exact le_of_opcodeAt unknown
    · exact le_of_operand first
    · exact le_of_operand second
  · cases impossible

end Memory

namespace Configuration

variable {c : Configuration size} {i : Instruction} {address : Nat}

theorem le_of_pushFault? (missed : c.pushFault? = some (.addressOutOfRange address)) :
    size ≤ address := by
  unfold pushFault? at missed
  split at missed
  · cases missed
  · split at missed
    · contradiction
    · rename_i outside
      cases missed
      exact Nat.le_of_not_lt outside

theorem le_of_popFault? (missed : c.popFault? = some (.addressOutOfRange address)) :
    size ≤ address := by
  unfold popFault? at missed
  split at missed
  · rename_i outside
    cases missed
    exact outside
  · split at missed
    · cases missed
    · contradiction

/-- The address after a call is not a byte, so it cannot be kept on the stack. -/
def ReturnsTooFar (c : Configuration size) (address : Nat) : Prop :=
  (∃ register, c.current? = some (.call register)) ∧ address = c.pc.toNat + 2 ∧ 0xFF < address

theorem le_or_returnsTooFar (current : c.current? = some i)
    (missed : c.performFault? i = some (.addressOutOfRange address)) :
    size ≤ address ∨ c.ReturnsTooFar address := by
  cases i with
  | push source => exact .inl (le_of_pushFault? missed)
  | pop target => exact .inl (le_of_popFault? missed)
  | ret => exact .inl (le_of_popFault? missed)
  | call target =>
    change (if 0xFF < (c.pc + 2).toNat then _ else _) = _ at missed
    split at missed
    · rename_i far
      cases missed
      exact .inr ⟨⟨target, current⟩, toNat_pc_add_two_of_far far, far⟩
    · exact .inl (le_of_pushFault? missed)
  | hlt | ldi | prn | arithmetic | cmp | jmp | branch => contradiction

theorem fault?_of_returnsTooFar (far : c.ReturnsTooFar address)
    (addressable : address < addressCount) : c.fault? = some (.addressOutOfRange address) := by
  obtain ⟨⟨register, current⟩, rfl, beyond⟩ := far
  rw [← toNat_pc_add_two_of_lt addressable] at beyond ⊢
  exact (fault?_of_current current).trans (if_pos beyond)

theorem missing_cases (missed : c.fault? = some (.addressOutOfRange address)) :
    Memory.reach size ≤ address ∨ c.ReturnsTooFar address := by
  cases halted : c.isHalted with
  | true => simp [fault?, halted] at missed
  | false =>
    cases instruction : c.memory.instructionAt c.pc with
    | error fault =>
      cases (fault?_of_refused halted instruction).symm.trans missed
      exact .inl (Memory.le_of_instructionAt instruction)
    | ok i =>
      have current : c.current? = some i := current?_eq_some.mpr ⟨halted, instruction⟩
      have cause := le_or_returnsTooFar current ((fault?_of_current current).symm.trans missed)
      exact cause.imp_left (Nat.le_trans (Nat.min_le_left _ _))

end Configuration

namespace Exec

/-- A step calls an existing address missing exactly if it is a call, the address is the one it
would return to, and it is more than a byte. With 256 cells or fewer no such address exists. Cells
that lie behind the last address have none. -/
theorem calls_existing_address_missing_iff (machine : Machine size) (address : Nat) :
    ((∃ after, step machine = .error (.addressOutOfRange address) after) ∧
        address < Memory.reach size ↔
      machine.configuration.ReturnsTooFar address ∧ address < Memory.reach size) ∧
    (size ≤ 256 → (∃ after, step machine = .error (.addressOutOfRange address) after) →
      size ≤ address) := by
  have blamed : (∃ after, step machine = .error (.addressOutOfRange address) after) →
      Memory.reach size ≤ address ∨ machine.configuration.ReturnsTooFar address := by
    rintro ⟨after, faulted⟩
    exact Configuration.missing_cases (fault_of_step faulted).1
  refine ⟨⟨?_, ?_⟩, ?_⟩
  · rintro ⟨faulted, inside⟩
    rcases blamed faulted with outside | far
    · exact absurd inside (Nat.not_lt.mpr outside)
    · exact ⟨far, inside⟩
  · rintro ⟨far, inside⟩
    have addressable := Nat.lt_of_lt_of_le inside (Nat.min_le_right _ _)
    obtain ⟨after, faulted, _⟩ :=
      step_of_fault (Configuration.fault?_of_returnsTooFar far addressable)
    exact ⟨⟨after, faulted⟩, inside⟩
  · intro small faulted
    rcases blamed faulted with outside | far
    · rwa [Memory.reach_eq (Nat.le_trans small (by decide))] at outside
    · exact Nat.le_trans small far.2.2

/-- A program that jumps to a call two bytes below address 256, in a memory with a cell there. -/
theorem call_misses_existing_address :
    let memory : Memory 257 :=
      (Memory.zeros.overwrite 0 #[0x99, 0, 254, 0x50, 0]).overwrite 254 #[0x48, 0]
    let machine := (Machine.start memory).after 2
    ∃ after, step machine = .error (.addressOutOfRange 256) after ∧ 256 < 257 := by
  intro memory machine
  have meets : machine.configuration.fault? = some (.addressOutOfRange 256) := by decide +kernel
  obtain ⟨after, faulted, _⟩ := step_of_fault meets
  exact ⟨after, faulted, by decide⟩

end Exec

end ByteMachine
