import ByteMachine.Proofs.Machine.Effect

/-! The actions of the machine follow the rules of `Configuration`: performing an instruction,
executing an opcode with operand bytes, and a whole step. A fault of any of them comes before the
first change. -/
namespace ByteMachine.Exec

variable {size : Nat} {machine after : Machine size} {fault : Fault}

theorem push_faults (value : Byte) (h : machine.configuration.pushFault? = some fault) :
    push value machine = .error fault machine := by
  unfold Configuration.pushFault? at h
  rw [push_apply]
  split at h
  · cases h
    exact if_pos ‹_›
  · refine (if_neg ‹_›).trans ?_
    split at h
    · contradiction
    · cases h
      exact if_neg ‹_›

theorem push_succeeds (value : Byte) (room : machine.configuration.Pushable) :
    ∃ after, push value machine = .ok () after ∧
      after.configuration = machine.configuration.push value := by
  have faultless := Configuration.pushFault?_eq_none.mpr room
  unfold Configuration.pushFault? at faultless
  split at faultless
  · contradiction
  · rename_i nonempty
    split at faultless
    · rename_i below
      exact ⟨_, (push_apply value machine).trans ((if_neg nonempty).trans (if_pos below)), rfl⟩
    · contradiction

theorem pop_faults (h : machine.configuration.popFault? = some fault) :
    pop machine = .error fault machine := by
  unfold Configuration.popFault? at h
  rw [pop_apply]
  split at h
  · cases h
    exact if_pos ‹_›
  · refine (if_neg ‹_›).trans ?_
    split at h
    · cases h
      exact if_pos ‹_›
    · contradiction

theorem pop_succeeds (filled : machine.configuration.Poppable) :
    ∃ after, pop machine = .ok machine.configuration.top after ∧
      after.configuration = machine.configuration.pop := by
  have faultless := Configuration.popFault?_eq_none.mpr filled
  unfold Configuration.popFault? at faultless
  split at faultless
  · contradiction
  · rename_i inside
    split at faultless
    · contradiction
    · rename_i below
      exact ⟨_, (pop_apply machine).trans ((if_neg inside).trans (if_neg below)), rfl⟩

theorem configuration_note (machine : Machine size) (event : Event) :
    ({ machine with journal := machine.journal.push event } : Machine size).configuration =
      { machine.configuration with printed := machine.printed ++ event.value?.toList } := by
  have printed : (machine.journal.push event).toList.filterMap Event.value? =
      machine.printed ++ event.value?.toList := by
    rw [Array.toList_push, List.filterMap_append]
    cases event <;> rfl
  exact congrArg (Configuration.mk machine.processor machine.memory) printed

/-- Log records do not belong to the configuration. -/
theorem configuration_log (machine : Machine size) (entry : Record) :
    ({ machine with journal := machine.journal.push (.logged entry) } :
      Machine size).configuration = machine.configuration := by
  rw [configuration_note]
  simp only [Event.value?, Option.toList_none, List.append_nil]
  rfl

theorem perform_faults {i : Instruction} (h : machine.configuration.performFault? i = some fault) :
    perform i machine = .error fault machine := by
  cases i with
  | push source => simp only [perform, readRegister, bind_apply, push_faults _ h]
  | pop target => simp only [perform, bind_apply, pop_faults h]
  | ret => simp only [perform, bind_apply, pop_faults h]
  | call target =>
    change (if 0xFF < (machine.processor.pc + 2).toNat then _ else _) = _ at h
    split at h
    · rename_i far
      cases h
      simp only [perform, processor, bind_apply, ite_apply, if_pos far, throw_apply]
      rfl
    · rename_i near
      simp only [perform, processor, bind_apply, ite_apply, if_neg near, push_faults _ h]
  | hlt | ldi | prn | arithmetic | cmp | jmp | branch => contradiction

/-- An instruction succeeds in the way of its rule, with some account of it for the log. -/
def Follows (i : Instruction) (machine : Machine size) : Prop :=
  ∃ flow account after, perform i machine = .ok (flow, account) after ∧
    machine.configuration.Performs i flow after.configuration

theorem perform_push (source : Register) (room : machine.configuration.Pushable) :
    Follows (.push source) machine := by
  have rule := Configuration.Performs.push source room
  obtain ⟨after, pushed, effect⟩ := push_succeeds (machine.configuration.get source) room
  rw [← effect] at rule
  change push (machine.processor.registers.get source) machine = _ at pushed
  refine ⟨_, ?account, after, ?pushed, rule⟩
  case pushed =>
    simp only [perform, readRegister, bind_apply, pushed, pure_apply]
    rfl

theorem perform_pop (target : Register) (filled : machine.configuration.Poppable) :
    Follows (.pop target) machine := by
  have rule := Configuration.Performs.pop target filled
  obtain ⟨after, popped, effect⟩ := pop_succeeds filled
  rw [← effect] at rule
  refine ⟨_, ?account, { after with processor := { after.processor with
    registers := after.processor.registers.set target machine.configuration.top } }, ?popped, rule⟩
  case popped =>
    simp only [perform, bind_apply, popped, setRegister, changeProcessor, pure_apply]
    rfl

/-- A call reads its register after the push, so a call by the stack pointer sees it moved. -/
theorem perform_call (target : Register) (near : ¬ 0xFF < (machine.processor.pc + 2).toNat)
    (room : machine.configuration.Pushable) : Follows (.call target) machine := by
  have within : (machine.configuration.pc + 2).toNat ≤ 0xFF := Nat.le_of_not_lt near
  have rule := Configuration.Performs.call target within room
  obtain ⟨after, pushed, effect⟩ := push_succeeds machine.configuration.back room
  change push (machine.processor.pc + 2).toUInt8 machine = _ at pushed
  rw [← effect] at rule
  refine ⟨_, ?account, after, ?called, rule⟩
  case called =>
    simp only [perform, processor, bind_apply, ite_apply, if_neg near, pushed, readRegister,
      pure_apply]
    rfl

theorem perform_ret (filled : machine.configuration.Poppable) : Follows .ret machine := by
  have rule := Configuration.Performs.ret filled
  obtain ⟨after, popped, effect⟩ := pop_succeeds filled
  rw [← effect] at rule
  refine ⟨_, ?account, after, ?returned, rule⟩
  case returned =>
    simp only [perform, bind_apply, popped, pure_apply]
    rfl

theorem perform_succeeds {i : Instruction} (h : machine.configuration.performFault? i = none) :
    Follows i machine := by
  cases i with
  | hlt => exact ⟨_, _, _, rfl, .hlt⟩
  | ldi target value => exact ⟨_, _, _, rfl, .ldi target value⟩
  | prn source =>
    have printed := configuration_note machine (.printed (machine.configuration.get source))
    exact ⟨_, _, _, rfl, printed ▸ .prn source⟩
  | arithmetic operation target source =>
    exact ⟨_, _, _, rfl, .arithmetic operation target source⟩
  | push source => exact perform_push source (Configuration.pushFault?_eq_none.mp h)
  | pop target => exact perform_pop target (Configuration.popFault?_eq_none.mp h)
  | call target =>
    change (if 0xFF < (machine.processor.pc + 2).toNat then _ else _) = _ at h
    split at h
    · contradiction
    · rename_i near
      exact perform_call target near (Configuration.pushFault?_eq_none.mp h)
  | ret => exact perform_ret (Configuration.popFault?_eq_none.mp h)
  | cmp left right => exact ⟨_, _, _, rfl, .cmp left right⟩
  | jmp target => exact ⟨_, _, _, rfl, .jmp target⟩
  | branch condition target =>
    refine ⟨_, _, machine, rfl, ?_⟩
    cases met : machine.processor.flags.meets condition with
    | true => exact .taken condition target met
    | false => exact .passed condition target met

section Execute

variable {opcode : Opcode} {a b : Byte} {i : Instruction}

theorem execute_refuses {index : Byte} (undecoded : Instruction.decode opcode a b = .error index) :
    execute opcode a b machine = .error (.invalidRegister index machine.processor.pc) machine := by
  simp only [execute, processor, bind_apply, undecoded, throw_apply]

theorem execute_faults (decoded : Instruction.decode opcode a b = .ok i)
    (meets : machine.configuration.performFault? i = some fault) :
    execute opcode a b machine = .error fault machine := by
  simp only [execute, processor, bind_apply, decoded, perform_faults meets]

theorem execute_succeeds (decoded : Instruction.decode opcode a b = .ok i)
    (faultless : machine.configuration.performFault? i = none) :
    ∃ flow after, execute opcode a b machine = .ok flow after ∧
      machine.configuration.Performs i flow after.configuration := by
  obtain ⟨flow, account, after, performed, rule⟩ := perform_succeeds faultless
  rw [← configuration_log after] at rule
  refine ⟨flow, _, ?_, rule⟩
  simp only [execute, processor, bind_apply, decoded, performed, log, note, pure_apply]
  rfl

end Execute

theorem step_of_halted (halted : machine.isHalted = true) :
    step machine = .ok .halted machine := by
  change machine.processor.isHalted = true at halted
  simp only [step, processor, bind_apply, halted, if_true, pure_apply]

/-- A machine that cannot fetch an opcode with its operands stops before its trace record. -/
theorem step_of_unfetched (running : machine.isHalted = false)
    (h : machine.memory.encodingAt machine.processor.pc = .error fault) :
    step machine = .error fault machine := by
  change machine.processor.isHalted = false at running
  rcases Memory.encodingAt_eq_error.mp h with
    unknown | ⟨opcode, known, absent | ⟨a, first, absent⟩⟩
  · simp only [step, processor, bind_apply, running, Bool.false_eq_true, if_false,
      fetchOpcode_apply, unknown]
  · simp only [step, processor, bind_apply, running, Bool.false_eq_true, if_false,
      fetchOpcode_apply, known, fetchOperand_of_error absent]
  · obtain ⟨x, fetched, _⟩ := fetchOperand_of_ok first
    simp only [step, processor, bind_apply, running, Bool.false_eq_true, if_false,
      fetchOpcode_apply, known, fetched, fetchOperand_of_error absent]

/-- The machine with the trace record that is made when a step has fetched. -/
def traced (machine : Machine size) : Machine size :=
  { machine with
    journal := machine.journal.push (.logged ⟨.trace, .processor, machine.processor.trace⟩) }

theorem configuration_traced (machine : Machine size) :
    (traced machine).configuration = machine.configuration :=
  configuration_log machine _

/-- A machine that fetches executes what it has fetched after its trace record. The operand bytes
may differ from those of the encoding where the opcode does not take them. -/
theorem step_of_fetched {opcode : Opcode} {a b : Byte} (running : machine.isHalted = false)
    (h : machine.memory.encodingAt machine.processor.pc = .ok (opcode, a, b)) :
    ∃ x y, Instruction.decode opcode x y = Instruction.decode opcode a b ∧
      step machine = (do
        let flow ← execute opcode x y
        advance opcode flow
        return (← processor).status) (traced machine) := by
  change machine.processor.isHalted = false at running
  obtain ⟨known, first, second⟩ := Memory.encodingAt_eq_ok.mp h
  obtain ⟨x, fetchedX, sameX⟩ := fetchOperand_of_ok first
  obtain ⟨y, fetchedY, sameY⟩ := fetchOperand_of_ok second
  refine ⟨x, y, Instruction.decode_congr opcode sameX sameY, ?_⟩
  simp only [step, processor, bind_apply, running, Bool.false_eq_true, if_false,
    fetchOpcode_apply, known, fetchedX, fetchedY, log, note]
  rfl

theorem step_refuses (running : machine.isHalted = false)
    (refused : machine.memory.instructionAt machine.processor.pc = .error fault) :
    ∃ after, step machine = .error fault after ∧ after.configuration = machine.configuration := by
  rcases Memory.instructionAt_eq_error.mp refused with
    unfetched | ⟨opcode, a, b, encoded, index, undecoded, rfl⟩
  · exact ⟨machine, step_of_unfetched running unfetched, rfl⟩
  · obtain ⟨x, y, same, unfolded⟩ := step_of_fetched running encoded
    refine ⟨traced machine, ?_, configuration_traced machine⟩
    rw [unfolded]
    simp only [bind_apply, execute_refuses (same.trans undecoded)]
    rfl

theorem step_faults {i : Instruction} (current : machine.configuration.current? = some i)
    (meets : machine.configuration.performFault? i = some fault) :
    ∃ after, step machine = .error fault after ∧ after.configuration = machine.configuration := by
  obtain ⟨running, instruction⟩ := Configuration.current?_eq_some.mp current
  obtain ⟨opcode, a, b, encoded, decoded⟩ := Memory.instructionAt_eq_ok.mp instruction
  obtain ⟨x, y, same, unfolded⟩ := step_of_fetched running encoded
  refine ⟨traced machine, ?_, configuration_traced machine⟩
  rw [← configuration_traced] at meets
  rw [unfolded]
  simp only [bind_apply, execute_faults (same.trans decoded) meets]

theorem step_succeeds {i : Instruction} (current : machine.configuration.current? = some i)
    (faultless : machine.configuration.performFault? i = none) :
    ∃ after, step machine = .ok after.processor.status after ∧
      machine.configuration.Steps after.configuration := by
  obtain ⟨running, instruction⟩ := Configuration.current?_eq_some.mp current
  obtain ⟨opcode, a, b, encoded, decoded⟩ := Memory.instructionAt_eq_ok.mp instruction
  obtain ⟨x, y, same, unfolded⟩ := step_of_fetched running encoded
  rw [← configuration_traced] at faultless
  obtain ⟨flow, after, executed, rule⟩ := execute_succeeds (same.trans decoded) faultless
  rw [configuration_traced] at rule
  have whole := Configuration.Steps.performs current rule
  rw [Instruction.opcode_of_decode decoded] at whole
  refine ⟨{ after with processor := (after.configuration.advance opcode flow).processor }, ?_,
    whole⟩
  rw [unfolded]
  simp only [bind_apply, executed, advance, changeProcessor, processor, pure_apply]
  cases flow <;> rfl

/-- A step either meets the fault of its configuration and keeps it, or follows the rules and
returns the status that it leaves. -/
theorem step_outcome (machine : Machine size) :
    (∃ fault after, machine.configuration.fault? = some fault ∧
      step machine = .error fault after ∧ after.configuration = machine.configuration) ∨
    ∃ after, step machine = .ok after.processor.status after ∧
      machine.configuration.Steps after.configuration := by
  cases halted : machine.isHalted with
  | true =>
    right
    have status : machine.processor.status = .halted := by
      simpa [Machine.isHalted, Processor.isHalted] using halted
    refine ⟨machine, ?_, .rests halted⟩
    rw [status]
    exact step_of_halted halted
  | false =>
    cases instruction : machine.memory.instructionAt machine.processor.pc with
    | error fault =>
      left
      obtain ⟨after, faulted, kept⟩ := step_refuses halted instruction
      exact ⟨fault, after, Configuration.fault?_of_refused halted instruction, faulted, kept⟩
    | ok i =>
      have current : machine.configuration.current? = some i :=
        Configuration.current?_eq_some.mpr ⟨halted, instruction⟩
      cases meets : machine.configuration.performFault? i with
      | some fault =>
        left
        obtain ⟨after, faulted, kept⟩ := step_faults current meets
        exact ⟨fault, after, (Configuration.fault?_of_current current).trans meets, faulted, kept⟩
      | none =>
        right
        exact step_succeeds current meets

theorem steps_of_step {status : Status} (h : step machine = .ok status after) :
    machine.configuration.Steps after.configuration ∧ status = after.processor.status := by
  obtain ⟨fault, stopped, _, faulted, _⟩ | ⟨final, succeeded, steps⟩ := step_outcome machine
  · cases h.symm.trans faulted
  · cases h.symm.trans succeeded
    exact ⟨steps, rfl⟩

theorem fault_of_step (h : step machine = .error fault after) :
    machine.configuration.fault? = some fault ∧ after.configuration = machine.configuration := by
  obtain ⟨fault, stopped, meets, faulted, kept⟩ | ⟨final, succeeded, _⟩ := step_outcome machine
  · cases h.symm.trans faulted
    exact ⟨meets, kept⟩
  · cases h.symm.trans succeeded

theorem step_of_steps {c : Configuration size} (h : machine.configuration.Steps c) :
    ∃ after, step machine = .ok c.processor.status after ∧ after.configuration = c := by
  obtain ⟨fault, stopped, meets, _, _⟩ | ⟨final, succeeded, steps⟩ := step_outcome machine
  · cases h.faultless.symm.trans meets
  · cases steps.unique h
    exact ⟨final, succeeded, rfl⟩

theorem step_of_fault (h : machine.configuration.fault? = some fault) :
    ∃ after, step machine = .error fault after ∧
      after.configuration = machine.configuration := by
  obtain ⟨fault, stopped, meets, faulted, kept⟩ | ⟨final, _, steps⟩ := step_outcome machine
  · cases meets.symm.trans h
    exact ⟨stopped, faulted, kept⟩
  · cases steps.faultless.symm.trans h

end ByteMachine.Exec
