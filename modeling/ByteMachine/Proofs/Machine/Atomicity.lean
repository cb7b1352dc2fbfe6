import ByteMachine.Proofs.Machine.Drive

/-! A fault is atomic: the instruction that meets it has changed nothing, and a run that ends in it
leaves the machine as its last successful step did. Only the log may know that a step was tried. -/
namespace ByteMachine.Exec

variable {size : Nat}

/-- An instruction that is executed on its own and faults does not even leave a log record. -/
theorem execute_error {opcode : Opcode} {a b : Byte} {machine after : Machine size} {fault : Fault}
    (h : execute opcode a b machine = .error fault after) : after = machine := by
  cases decoded : Instruction.decode opcode a b with
  | error index =>
    cases h.symm.trans (execute_refuses decoded)
    rfl
  | ok i =>
    cases meets : machine.configuration.performFault? i with
    | some fault =>
      cases h.symm.trans (execute_faults decoded meets)
      rfl
    | none =>
      obtain ⟨flow, succeeded, executed, _⟩ := execute_succeeds decoded meets
      cases h.symm.trans executed

/-- Nothing that a program can see has changed when a step, an instruction or a whole run faults;
the run has come as far as its last successful step. -/
theorem fault_keeps_configuration (machine : Machine size) :
    (∀ fault after, step machine = .error fault after →
      after.configuration = machine.configuration) ∧
    (∀ opcode a b fault after, execute opcode a b machine = .error fault after →
      after.configuration = machine.configuration) ∧
    ∀ pace limit count fault after, drive pace limit count machine = .error fault after →
      ∃ steps, machine.Runs steps ∧ step (machine.after steps) = .error fault after ∧
        after.configuration = (machine.after steps).configuration := by
  refine ⟨?_, ?_, ?_⟩
  · intro fault after faulted
    exact (fault_of_step faulted).2
  · intro opcode a b fault after faulted
    rw [execute_error faulted]
  · intro pace limit count fault after faulted
    obtain ⟨steps, runs, last⟩ := drive_error faulted
    exact ⟨steps, runs, last, (fault_of_step last).2⟩

/-- A pop with the stack pointer at the last cell, after an instruction that moved it there. -/
theorem pop_at_last_cell_keeps_configuration :
    let machine : Machine 16 := .start (Memory.zeros.overwrite 0 #[0x99, 7, 15, 0x4C, 0])
    ∃ after, drive .free 9 0 machine = .error (.stackUnderflow 15 3) after ∧
      ∃ steps, machine.Runs steps ∧
        step (machine.after steps) = .error (.stackUnderflow 15 3) after ∧
        after.configuration = (machine.after steps).configuration :=
  ⟨_, rfl, (fault_keeps_configuration _).2.2 .free 9 0 _ _ rfl⟩

end ByteMachine.Exec
