import ByteMachine.Proofs.Machine.Hazard
import ByteMachine.Proofs.Machine.Table

/-! The processor fetches two bytes behind every opcode, whether it takes them or not. That makes no
difference: a step that fetches the operands alone is the same step. So all that a step depends on
is the processor, the bytes of its instruction and, for an instruction that pops, the top of the
stack. -/
namespace ByteMachine

variable {size : Nat}

namespace Exec

variable {α : Type}

/-- What an action comes to, apart from the machine that it leaves. -/
def outcome (action : Exec size α) (machine : Machine size) : Except Fault α :=
  match action machine with
  | .ok value _ => .ok value
  | .error fault _ => .error fault

/-- Reads as many bytes behind the opcode as it takes, one after another. -/
def fetchOperands (opcode : Opcode) : Exec size (List Byte) :=
  (List.range' 1 opcode.operandCount).mapM fetch

/-- A fetch-decode-execute cycle without prefetching. Operands that are not taken are zero. -/
def exactStep : Exec size Status := do
  let before ← processor
  if before.isHalted then return .halted
  else do
    let opcode ← fetchOpcode
    let operands ← fetchOperands opcode
    log .trace before.trace
    let flow ← execute opcode (operands.getD 0 0) (operands.getD 1 0)
    advance opcode flow
    return (← processor).status

end Exec

namespace Configuration

/-- How many bytes at the program counter belong to the instruction there. A byte that is no opcode
is looked at alone. -/
def currentLength (c : Configuration size) : Nat :=
  match c.opcode? with
  | some opcode => opcode.length
  | none => 1

/-- The two configurations have the same processor and agree on every cell that a step reads. -/
structure ReadsAlike (left right : Configuration size) : Prop where
  processor : right.processor = left.processor
  code : ∀ k < left.currentLength,
    right.memory.get? (left.pc.toNat + k) = left.memory.get? (left.pc.toNat + k)
  top : left.opcode? = some .pop ∨ left.opcode? = some .ret →
    right.memory.get? left.sp.toNat = left.memory.get? left.sp.toNat

/-- What a step leaves: the changes of the current instruction, unless it meets a fault or there is
none. -/
def following (c : Configuration size) : Configuration size :=
  match c.fault?, c.current? with
  | none, some i => c.apply i.opcode.length (c.change i)
  | _, _ => c

theorem Steps.following {c after : Configuration size} (steps : c.Steps after) :
    c.following = after := by
  have faultless := steps.faultless
  cases steps with
  | rests halted => simp only [Configuration.following, faultless, current?, if_pos halted]
  | performs current effect => simp only [Configuration.following, faultless, current, effect.entry]

variable {left right : Configuration size} {opcode : Opcode}

theorem opcode?_of_opcodeAt {c : Configuration size} (known : c.memory.opcodeAt c.pc = .ok opcode) :
    c.opcode? = some opcode := by
  obtain ⟨byte, stored, named⟩ := Memory.opcodeAt_eq_ok.mp known
  simpa only [opcode?, ahead, Nat.add_zero, stored, Option.getD_some] using named

theorem opcode?_of_current {c : Configuration size} {i : Instruction}
    (current : c.current? = some i) : c.opcode? = some i.opcode := by
  obtain ⟨opcode, a, b, encoded, decoded⟩ :=
    Memory.instructionAt_eq_ok.mp (current?_eq_some.mp current).2
  rw [Instruction.opcode_of_decode decoded]
  exact opcode?_of_opcodeAt (Memory.encodingAt_eq_ok.mp encoded).1

theorem ReadsAlike.isHalted (alike : left.ReadsAlike right) : right.isHalted = left.isHalted :=
  congrArg (·.isHalted) alike.processor

theorem ReadsAlike.pc (alike : left.ReadsAlike right) : right.pc = left.pc :=
  congrArg (·.pc) alike.processor

theorem ReadsAlike.get (alike : left.ReadsAlike right) (register : Register) :
    right.get register = left.get register :=
  congrArg (·.registers.get register) alike.processor

theorem ReadsAlike.sp (alike : left.ReadsAlike right) : right.sp = left.sp :=
  alike.get .stackPointer

/-- What two configurations that read alike fetch, or the fault that both meet. -/
theorem ReadsAlike.encodingAt (alike : left.ReadsAlike right) :
    right.memory.encodingAt left.pc = left.memory.encodingAt left.pc := by
  have code : ∀ k < left.currentLength, right.memory.fetch left.pc k =
      left.memory.fetch left.pc k := fun k within => by
    rw [Memory.fetch, Memory.read, alike.code k within]
    rfl
  have begins : 0 < left.currentLength := by
    unfold currentLength
    split
    · exact Nat.succ_pos _
    · exact Nat.one_pos
  have first := code 0 begins
  rw [Memory.fetch_zero, Memory.fetch_zero] at first
  have known : right.memory.opcodeAt left.pc = left.memory.opcodeAt left.pc := by
    simp only [Memory.opcodeAt, first]
  unfold Memory.encodingAt
  rw [known]
  cases found : left.memory.opcodeAt left.pc with
  | error fault => rfl
  | ok opcode =>
    have length : left.currentLength = opcode.length := by
      rw [currentLength, opcode?_of_opcodeAt found]
    have operand (position : Nat) : right.memory.operand opcode left.pc position =
        left.memory.operand opcode left.pc position := by
      unfold Memory.operand
      split
      · rename_i taken
        exact code position (length ▸ Nat.lt_succ_of_le taken)
      · rfl
    simp only [bind, Except.bind, operand]

theorem ReadsAlike.instructionAt (alike : left.ReadsAlike right) :
    right.memory.instructionAt left.pc = left.memory.instructionAt left.pc := by
  unfold Memory.instructionAt
  rw [alike.encodingAt]

theorem ReadsAlike.current? (alike : left.ReadsAlike right) : right.current? = left.current? := by
  unfold Configuration.current?
  rw [alike.isHalted, alike.pc, alike.instructionAt]

theorem ReadsAlike.fault? (alike : left.ReadsAlike right) : right.fault? = left.fault? := by
  have performs (i : Instruction) : right.performFault? i = left.performFault? i := by
    unfold performFault? pushFault? popFault?
    rw [alike.pc, alike.sp]
  unfold Configuration.fault?
  rw [alike.isHalted, alike.pc, alike.instructionAt]
  simp only [performs]

/-- The top of the stack is in the entries of those instructions alone that pop it. -/
theorem ReadsAlike.change (alike : left.ReadsAlike right) {i : Instruction}
    (current : left.current? = some i) : right.change i = left.change i := by
  have known := opcode?_of_current current
  have top (pops : i.opcode = .pop ∨ i.opcode = .ret) : right.top = left.top := by
    have popped : left.opcode? = some .pop ∨ left.opcode? = some .ret :=
      known ▸ pops.imp (congrArg some) (congrArg some)
    unfold Configuration.top
    rw [alike.sp]
    exact congrArg (·.getD 0) (alike.top popped)
  cases i with
  | pop => simp only [Configuration.change, alike.sp, top (.inl rfl)]
  | ret => simp only [Configuration.change, alike.sp, top (.inr rfl)]
  | arithmetic operation => cases operation <;> simp only [Configuration.change, alike.get]
  | branch => simp only [Configuration.change, alike.get, alike.processor]
  | hlt | ldi | prn | push | call | cmp | jmp =>
    simp only [Configuration.change, alike.get, alike.sp, alike.pc]

theorem ReadsAlike.following (alike : left.ReadsAlike right) :
    right.following.processor = left.following.processor ∧ ∃ values cell,
      left.following.printed = left.printed ++ values ∧
      right.following.printed = right.printed ++ values ∧
      left.following.memory = left.memory.update cell ∧
      right.following.memory = right.memory.update cell := by
  unfold Configuration.following
  rw [alike.fault?, alike.current?]
  have stays : left.printed = left.printed ++ [] ∧ right.printed = right.printed ++ [] :=
    ⟨(List.append_nil _).symm, (List.append_nil _).symm⟩
  cases left.fault? with
  | some fault => exact ⟨alike.processor, [], none, stays.1, stays.2, rfl, rfl⟩
  | none =>
    cases current : left.current? with
    | none => exact ⟨alike.processor, [], none, stays.1, stays.2, rfl, rfl⟩
    | some i =>
      simp only [alike.change current]
      refine ⟨?_, (left.change i).printed, (left.change i).cell, rfl, rfl, rfl, rfl⟩
      simp only [apply, alike.processor, alike.pc]

end Configuration

namespace Exec

open Memory

variable {machine : Machine size} {opcode : Opcode} {fault : Fault} {a b : Byte}

/-- The whole of a step, told by the configuration alone. -/
theorem outcome_step (machine : Machine size) :
    (step.leaves machine).configuration = machine.configuration.following ∧
      step.outcome machine = match machine.configuration.fault? with
        | some fault => .error fault
        | none => .ok machine.configuration.following.processor.status := by
  obtain ⟨fault, after, meets, faulted, kept⟩ | ⟨after, succeeded, steps⟩ := step_outcome machine
  · simp only [leaves, outcome, Configuration.following, faulted, meets, kept, and_self]
  · simp only [leaves, outcome, succeeded, steps.faultless, steps.following, true_and]
    rfl

/-- Fetching the operands alone is reading the operand bytes of the encoding. -/
theorem fetchOperands_apply (opcode : Opcode) :
    fetchOperands opcode machine =
      match (do
        let a ← machine.memory.operand opcode machine.processor.pc 1
        let b ← machine.memory.operand opcode machine.processor.pc 2
        return [a, b].take opcode.operandCount) with
      | .ok operands => .ok operands machine
      | .error fault => .error fault machine := by
  have cases : opcode.operandCount = 0 ∨ opcode.operandCount = 1 ∨ opcode.operandCount = 2 := by
    have few := opcode.operandCount_le
    omega
  rcases cases with count | count | count
  · simp only [fetchOperands, operand, count]
    rfl
  · simp only [fetchOperands, operand, count, List.range'_succ, List.range'_zero, List.mapM_cons,
      List.mapM_nil, bind_apply, fetch_apply, pure_apply]
    cases machine.memory.fetch machine.processor.pc 1 <;> rfl
  · simp only [fetchOperands, operand, count, List.range'_succ, List.range'_zero, List.mapM_cons,
      List.mapM_nil, bind_apply, fetch_apply, pure_apply, Nat.reduceAdd]
    cases machine.memory.fetch machine.processor.pc 1 with
    | error fault => rfl
    | ok a =>
      simp only
      cases machine.memory.fetch machine.processor.pc 2 <;> rfl

theorem fetchOperands_of_ok (first : machine.memory.operand opcode machine.processor.pc 1 = .ok a)
    (second : machine.memory.operand opcode machine.processor.pc 2 = .ok b) :
    fetchOperands opcode machine = .ok ([a, b].take opcode.operandCount) machine := by
  rw [fetchOperands_apply, first, second]
  rfl

theorem fetchOperands_of_error
    (absent : machine.memory.operand opcode machine.processor.pc 1 = .error fault ∨
      ∃ a, machine.memory.operand opcode machine.processor.pc 1 = .ok a ∧
        machine.memory.operand opcode machine.processor.pc 2 = .error fault) :
    fetchOperands opcode machine = .error fault machine := by
  rcases absent with missing | ⟨a, first, missing⟩
  · rw [fetchOperands_apply, missing]
    rfl
  · rw [fetchOperands_apply, first, missing]
    rfl

/-- Executing is told apart by the operands that the opcode takes and by no others. -/
theorem execute_congr (opcode : Opcode) {a b a' b' : Byte}
    (first : 1 ≤ opcode.operandCount → a = a') (second : 2 ≤ opcode.operandCount → b = b') :
    (execute opcode a b : Exec size Flow) = execute opcode a' b' := by
  simp only [execute, Instruction.decode_congr opcode first second]

theorem step_eq_exactStep (machine : Machine size) : step machine = exactStep machine := by
  cases halted : machine.processor.isHalted with
  | true => simp only [step, exactStep, processor, bind_apply, halted, if_true]
  | false =>
    cases encoded : machine.memory.encodingAt machine.processor.pc with
    | error fault =>
      rw [step_of_unfetched halted encoded]
      rcases encodingAt_eq_error.mp encoded with unknown | ⟨opcode, known, absent⟩
      · simp only [exactStep, processor, bind_apply, halted, Bool.false_eq_true, if_false,
          fetchOpcode_apply, unknown]
      · simp only [exactStep, processor, bind_apply, halted, Bool.false_eq_true, if_false,
          fetchOpcode_apply, known, fetchOperands_of_error absent]
    | ok encoding =>
      obtain ⟨opcode, a, b⟩ := encoding
      obtain ⟨known, first, second⟩ := encodingAt_eq_ok.mp encoded
      obtain ⟨x, fetchedX, sameX⟩ := fetchOperand_of_ok first
      obtain ⟨y, fetchedY, sameY⟩ := fetchOperand_of_ok second
      have same : (execute opcode x y : Exec size Flow) =
          execute opcode (([a, b].take opcode.operandCount).getD 0 0)
            (([a, b].take opcode.operandCount).getD 1 0) := by
        refine execute_congr opcode (fun taken => ?_) (fun taken => ?_)
        · rw [sameX taken, List.getD_eq_getElem?_getD, List.getElem?_take_of_lt taken]
          rfl
        · rw [sameY taken, List.getD_eq_getElem?_getD, List.getElem?_take_of_lt taken]
          rfl
      simp only [step, exactStep, processor, bind_apply, halted, Bool.false_eq_true, if_false,
        fetchOpcode_apply, known, fetchedX, fetchedY, fetchOperands_of_ok first second, same]

/-- Prefetching two bytes makes no difference to a step. On memories that agree where the step
reads, it comes to the same, and it writes the same into the same cell. -/
theorem step_reads_operands_alone :
    (∀ machine : Machine size, step machine = exactStep machine) ∧
    ∀ left right : Machine size, left.configuration.ReadsAlike right.configuration →
      step.outcome right = step.outcome left ∧
      (step.leaves right).processor = (step.leaves left).processor ∧ ∃ values cell,
        (step.leaves left).printed = left.printed ++ values ∧
        (step.leaves right).printed = right.printed ++ values ∧
        (step.leaves left).memory = left.memory.update cell ∧
        (step.leaves right).memory = right.memory.update cell := by
  refine ⟨step_eq_exactStep, fun left right alike => ?_⟩
  obtain ⟨leftLeaves, leftOutcome⟩ := outcome_step left
  obtain ⟨rightLeaves, rightOutcome⟩ := outcome_step right
  obtain ⟨processor, values, cell, printed, printed', memory, memory'⟩ := alike.following
  refine ⟨?_, ?_, values, cell, ?_, ?_, ?_, ?_⟩
  · rw [rightOutcome, leftOutcome, alike.fault?, processor]
  · exact (congrArg (·.processor) rightLeaves).trans
      (processor.trans (congrArg (·.processor) leftLeaves).symm)
  · exact (congrArg (·.printed) leftLeaves).trans printed
  · exact (congrArg (·.printed) rightLeaves).trans printed'
  · exact (congrArg (·.memory) leftLeaves).trans memory
  · exact (congrArg (·.memory) rightLeaves).trans memory'

/-- A pop next to a byte that is looked at and not taken. -/
theorem pop_reads_operands_alone :
    let left : Machine 16 :=
      (Machine.start (Memory.zeros.overwrite 0 #[0x99, 7, 9, 0x4C, 0])).after 1
    let right := { left with memory := left.memory.set 5 0xFF }
    right.memory ≠ left.memory ∧ left.configuration.ReadsAlike right.configuration ∧
      step.outcome right = step.outcome left ∧ step.answer? left = some .running := by
  intro left right
  have alike : left.configuration.ReadsAlike right.configuration :=
    { processor := rfl, code := by decide +kernel, top := by decide +kernel }
  exact ⟨by decide +kernel, alike, (step_reads_operands_alone.2 left right alike).1,
    by decide +kernel⟩

end Exec

end ByteMachine
