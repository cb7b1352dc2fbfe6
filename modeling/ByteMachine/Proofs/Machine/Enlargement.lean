import ByteMachine.Proofs.Machine.Drive

/-! More memory never changes a run that works without it. The same steps succeed on a machine whose
memory goes on where the smaller one ends, and the cells that it has more are not touched. The two
bytes past the opcode may well differ between the machines, but only where no operand is taken from
them. -/
namespace ByteMachine

variable {size larger : Nat}

/-- The faults that the size of the memory has no part in. -/
def Fault.isSizeless : Fault → Bool
  | .invalidOpcode .. | .invalidRegister .. | .stackOverflow .. => true
  | .addressOutOfRange _ | .stackUnderflow .. => false

namespace Configuration

theorem popFault?_needs_size {c : Configuration size} {fault : Fault}
    (meets : c.popFault? = some fault) : ¬ fault.isSizeless = true := by
  unfold popFault? at meets
  split at meets
  · cases meets
    exact Bool.false_ne_true
  · split at meets
    · cases meets
      exact Bool.false_ne_true
    · contradiction

/-- The larger configuration is the smaller one with the upper cells of `image` added to it. -/
structure Extends (image : Memory larger) (small : Configuration size)
    (large : Configuration larger) : Prop where
  processor : large.processor = small.processor
  printed : large.printed = small.printed
  below : ∀ address < size, large.memory.get? address = small.memory.get? address
  above : ∀ address, size ≤ address → large.memory.get? address = image.get? address

namespace Extends

variable {image : Memory larger} {small after : Configuration size} {large : Configuration larger}
variable {i : Instruction} {flow : Flow} {fault : Fault}

theorem size_le (h : Extends image small large) : size ≤ larger := by
  refine Nat.le_of_not_lt fun inside => ?_
  obtain ⟨value, content⟩ := small.memory.get?_of_lt inside
  have missing : large.memory.get? larger = none := Memory.get?_eq_none_iff.mpr (Nat.le_refl _)
  rw [h.below larger inside, content] at missing
  contradiction

theorem content (h : Extends image small large) {address : Nat} {value : Byte}
    (stored : small.memory.get? address = some value) :
    large.memory.get? address = some value :=
  (h.below address (Memory.lt_of_get? stored)).trans stored

theorem shares (h : Extends image small large) (start length : Nat) :
    small.memory.Shares large.memory start length :=
  fun _ _ _ stored => h.content stored

theorem get (h : Extends image small large) (register : Register) :
    large.get register = small.get register :=
  congrArg (·.registers.get register) h.processor

theorem sp (h : Extends image small large) : large.sp = small.sp := h.get .stackPointer

theorem pc (h : Extends image small large) : large.pc = small.pc := congrArg (·.pc) h.processor

theorem back (h : Extends image small large) : large.back = small.back := by
  simp only [Configuration.back, h.pc]

theorem flags (h : Extends image small large) : large.processor.flags = small.processor.flags :=
  congrArg (·.flags) h.processor

theorem pushable (h : Extends image small large) (room : small.Pushable) : large.Pushable := by
  simp only [Pushable, h.sp]
  exact ⟨room.1, Nat.le_trans room.2 h.size_le⟩

theorem poppable (h : Extends image small large) (filled : small.Poppable) : large.Poppable := by
  simp only [Poppable, h.sp]
  exact ⟨filled.1, Nat.lt_of_lt_of_le filled.2 h.size_le⟩

theorem top (h : Extends image small large) (filled : small.Poppable) : large.top = small.top := by
  simp only [Configuration.top, h.sp, h.below _ (Nat.lt_of_succ_lt filled.2)]

theorem set (h : Extends image small large) (register : Register) (value : Byte) :
    Extends image (small.set register value) (large.set register value) :=
  { h with processor := by simp only [Configuration.set, h.processor] }

theorem setFlags (h : Extends image small large) (flags : Flags) :
    Extends image (small.setFlags flags) (large.setFlags flags) :=
  { h with processor := by simp only [Configuration.setFlags, h.processor] }

theorem halt (h : Extends image small large) : Extends image small.halt large.halt :=
  { h with processor := by simp only [Configuration.halt, h.processor] }

theorem print (h : Extends image small large) (value : Byte) :
    Extends image (small.print value) (large.print value) :=
  { h with printed := congrArg (· ++ [value]) h.printed }

theorem pop (h : Extends image small large) : Extends image small.pop large.pop := by
  simp only [Configuration.pop, h.sp]
  exact h.set .stackPointer (small.sp + 1)

/-- The cell that a push writes is one that both memories have. -/
theorem push (h : Extends image small large) (room : small.Pushable) (value : Byte) :
    Extends image (small.push value) (large.push value) := by
  have moved := h.set .stackPointer (small.sp - 1)
  have positive := room.1
  have inside := room.2
  refine ⟨?_, h.printed, ?_, ?_⟩
  · simp only [Configuration.push, h.sp]
    exact moved.processor
  · intro address low
    rw [push_memory, push_memory, h.sp, Memory.get?_set, Memory.get?_set, h.below address low,
      if_pos low, if_pos (Nat.lt_of_lt_of_le low h.size_le)]
  · intro address high
    rw [push_memory, h.sp, Memory.get?_set, if_neg (by omega)]
    exact h.above address high

theorem advance (h : Extends image small large) (opcode : Opcode) (flow : Flow) :
    Extends image (small.advance opcode flow) (large.advance opcode flow) :=
  { h with processor := by simp only [Configuration.advance, h.processor] }

theorem perform (h : Extends image small large) (effect : small.Performs i flow after) :
    ∃ following, large.Performs i flow following ∧ Extends image after following := by
  cases effect with
  | hlt => exact ⟨_, .hlt, h.halt⟩
  | ldi target value => exact ⟨_, .ldi target value, h.set target value⟩
  | prn source =>
    refine ⟨_, .prn source, ?_⟩
    rw [h.get source]
    exact h.print (small.get source)
  | arithmetic operation target source =>
    refine ⟨_, .arithmetic operation target source, ?_⟩
    rw [h.get target, h.get source]
    exact h.set target _
  | push source room =>
    refine ⟨_, .push source (h.pushable room), ?_⟩
    rw [h.get source]
    exact h.push room (small.get source)
  | pop target filled =>
    refine ⟨_, .pop target (h.poppable filled), ?_⟩
    rw [h.top filled]
    exact h.pop.set target small.top
  | call target near room =>
    have pushed := h.push room small.back
    have rule := Performs.call target (h.pc.symm ▸ near) (h.pushable room)
    rw [h.back, pushed.get target] at rule
    exact ⟨_, rule, pushed⟩
  | ret filled =>
    have rule := Performs.ret (h.poppable filled)
    rw [h.top filled] at rule
    exact ⟨_, rule, h.pop⟩
  | cmp left right =>
    refine ⟨_, .cmp left right, ?_⟩
    rw [h.get left, h.get right]
    exact h.setFlags _
  | jmp target => exact ⟨large, h.get target ▸ .jmp target, h⟩
  | taken condition target met =>
    exact ⟨large, h.get target ▸ .taken condition target (h.flags ▸ met), h⟩
  | passed condition target unmet => exact ⟨large, .passed condition target (h.flags ▸ unmet), h⟩

theorem halted (h : Extends image small large) : large.isHalted = small.isHalted :=
  congrArg Processor.isHalted h.processor

theorem current (h : Extends image small large) (known : small.current? = some i) :
    large.current? = some i := by
  obtain ⟨running, decoded⟩ := current?_eq_some.mp known
  refine current?_eq_some.mpr ⟨h.halted.trans running, ?_⟩
  rw [h.pc]
  exact Memory.instructionAt_of_shares decoded (h.shares _ _)

theorem step (h : Extends image small large) (steps : small.Steps after) :
    ∃ following, large.Steps following ∧ Extends image after following := by
  cases steps with
  | rests resting => exact ⟨large, .rests (h.halted.trans resting), h⟩
  | @performs i flow after known effect =>
    obtain ⟨following, effect', related⟩ := h.perform effect
    exact ⟨_, .performs (h.current known) effect', related.advance i.opcode flow⟩

/-- An opcode or a register that does not exist is refused with any memory around it. -/
theorem instructionAt_error (h : Extends image small large)
    (refused : small.memory.instructionAt small.pc = .error fault)
    (sizeless : fault.isSizeless = true) :
    large.memory.instructionAt large.pc = .error fault := by
  rw [h.pc]
  refine Memory.instructionAt_eq_error.mpr ?_
  rcases Memory.instructionAt_eq_error.mp refused with
    unfetched | ⟨opcode, a, b, encoded, undecoded⟩
  · refine .inl (Memory.encodingAt_eq_error.mpr (.inl (Memory.opcodeAt_eq_error.mpr (.inr ?_))))
    rcases Memory.encodingAt_eq_error.mp unfetched with unknown | ⟨_, _, absent | ⟨_, _, absent⟩⟩
    · rcases Memory.opcodeAt_eq_error.mp unknown with ⟨_, rfl⟩ | ⟨byte, stored, unnamed⟩
      · contradiction
      · exact ⟨byte, h.content stored, unnamed⟩
    · cases Memory.operand_eq_error absent
      contradiction
    · cases Memory.operand_eq_error absent
      contradiction
  · exact .inr ⟨opcode, a, b, Memory.encodingAt_of_shares encoded (h.shares _ _), undecoded⟩

theorem pushFault?_eq (h : Extends image small large) (meets : small.pushFault? = some fault)
    (sizeless : fault.isSizeless = true) : large.pushFault? = some fault := by
  unfold pushFault? at meets ⊢
  rw [h.sp, h.pc]
  split at meets
  · rename_i empty
    rw [if_pos empty, meets]
  · split at meets
    · contradiction
    · cases meets
      contradiction

theorem performFault?_eq (h : Extends image small large)
    (meets : small.performFault? i = some fault) (sizeless : fault.isSizeless = true) :
    large.performFault? i = some fault := by
  cases i with
  | push source => exact h.pushFault?_eq meets sizeless
  | call target =>
    simp only [performFault?] at meets ⊢
    rw [h.pc]
    split at meets
    · cases meets
      contradiction
    · rename_i near
      rw [if_neg near]
      exact h.pushFault?_eq meets sizeless
  | pop | ret => exact absurd sizeless (popFault?_needs_size meets)
  | hlt | ldi | prn | arithmetic | cmp | jmp | branch => contradiction

theorem fault?_eq (h : Extends image small large) (meets : small.fault? = some fault)
    (sizeless : fault.isSizeless = true) : large.fault? = some fault := by
  unfold fault? at meets ⊢
  rw [h.halted]
  split at meets
  · contradiction
  · rename_i running
    rw [if_neg running]
    split at meets
    · cases meets
      rw [h.instructionAt_error ‹_› sizeless]
    · rename_i decoded
      have shared := Memory.instructionAt_of_shares decoded (h.shares _ _)
      rw [h.pc, shared]
      exact h.performFault?_eq meets sizeless

end Extends

end Configuration

namespace Exec

open ByteMachine.Configuration

variable {image : Memory larger} {small after : Machine size} {large : Machine larger}
variable {fault : Fault}

theorem step_of_extends {status : Status}
    (h : Extends image small.configuration large.configuration)
    (succeeded : step small = .ok status after) :
    ∃ following, step large = .ok status following ∧
      Extends image after.configuration following.configuration := by
  obtain ⟨steps, rfl⟩ := steps_of_step succeeded
  obtain ⟨c, steps', related⟩ := h.step steps
  obtain ⟨following, succeeded', rfl⟩ := step_of_steps steps'
  exact ⟨following, congrArg Processor.status related.processor ▸ succeeded', related⟩

theorem step_fault_of_extends (h : Extends image small.configuration large.configuration)
    (faulted : step small = .error fault after) (sizeless : fault.isSizeless = true) :
    ∃ following, step large = .error fault following := by
  obtain ⟨following, faulted', _⟩ := step_of_fault (h.fault?_eq (fault_of_step faulted).1 sizeless)
  exact ⟨following, faulted'⟩

theorem finish_of_extends {count : Nat} {answer : Option Nat}
    (h : Extends image small.configuration large.configuration)
    (finished : finish count small = .ok answer after) :
    ∃ following, finish count large = .ok answer following ∧
      Extends image after.configuration following.configuration := by
  rw [finish_announces] at finished
  cases finished
  refine ⟨_, finish_announces count large, ?_⟩
  rw [Machine.configuration_announce, Machine.configuration_announce]
  exact h

theorem turn_of_extends {pace : Pace} {count : Nat} {answer : Option Nat}
    (h : Extends image small.configuration large.configuration)
    (turned : turn count pace small = .ok answer after) :
    ∃ following, turn count pace large = .ok answer following ∧
      Extends image after.configuration following.configuration := by
  cases pace with
  | free =>
    have same : large.isHalted = small.isHalted := h.halted
    rw [turn_free] at turned ⊢
    rw [same]
    split at turned
    · rename_i halted
      rw [if_pos halted]
      exact finish_of_extends h turned
    · rename_i running
      rw [if_neg running]
      split at turned
      · rename_i succeeded
        cases turned
        obtain ⟨following, succeeded', related⟩ := step_of_extends h succeeded
        exact ⟨following, by rw [succeeded'], related⟩
      · contradiction
  | clocked period =>
    rw [turn_clocked] at turned ⊢
    split at turned
    · rename_i succeeded
      cases turned
      obtain ⟨following, succeeded', related⟩ := step_of_extends h succeeded
      exact ⟨following, by rw [succeeded'], related⟩
    · rename_i succeeded
      obtain ⟨following, succeeded', related⟩ := step_of_extends h succeeded
      rw [succeeded']
      exact finish_of_extends related turned
    · contradiction

/-- A run that ends without a fault ends with the same count and the same output. -/
theorem drive_of_extends {pace : Pace} {limit count : Nat} {answer : Option Nat}
    (h : Extends image small.configuration large.configuration)
    (driven : drive pace limit count small = .ok answer after) :
    ∃ following, drive pace limit count large = .ok answer following ∧
      Extends image after.configuration following.configuration := by
  induction limit generalizing small large count with
  | zero =>
    cases driven
    exact ⟨large, rfl, h⟩
  | succ limit ih =>
    rw [drive_succ] at driven ⊢
    split at driven
    · rename_i turned
      cases driven
      obtain ⟨following, turned', related⟩ := turn_of_extends h turned
      exact ⟨following, by rw [turned'], related⟩
    · rename_i turned
      obtain ⟨following, turned', related⟩ := turn_of_extends h turned
      rw [turned']
      exact ih related driven
    · contradiction

end Exec

namespace Machine

open Exec ByteMachine.Configuration

variable {image : Memory larger} {small : Machine size} {large : Machine larger} {count : Nat}

/-- The two machines stay related for as long as the smaller one runs. -/
theorem Runs.extends (runs : small.Runs count)
    (h : Extends image small.configuration large.configuration) :
    ∀ k ≤ count, large.Runs k ∧
      Extends image (small.after k).configuration (large.after k).configuration := by
  intro k within
  induction k with
  | zero => exact ⟨.zero large, h⟩
  | succ k ih =>
    obtain ⟨runs', related⟩ := ih (Nat.le_of_succ_le within)
    obtain ⟨status, succeeded⟩ := runs k within
    obtain ⟨following, succeeded', related'⟩ := step_of_extends related succeeded
    have same : large.after (k + 1) = following := after_one succeeded'
    exact ⟨runs'.snoc (same ▸ succeeded'), same ▸ related'⟩

/-- A run that works goes the same way with more memory, whatever the cells above hold: the same
processor and output after each step, the same answer of each step, and no change to the cells
above. Only faults that come from the end of the memory can then turn out differently. -/
theorem more_memory_runs_alike
    (processor : large.processor = small.processor) (printed : large.printed = small.printed)
    (agree : ∀ address < size, large.memory.get? address = small.memory.get? address)
    (runs : small.Runs count) :
    large.Runs count ∧
    (∀ k ≤ count, Extends large.memory (small.after k).configuration
      (large.after k).configuration) ∧
    (∀ k < count, ∀ status after, step (small.after k) = .ok status after →
      ∃ after', step (large.after k) = .ok status after') ∧
    (∀ fault after, step (small.after count) = .error fault after → fault.isSizeless = true →
      ∃ after', step (large.after count) = .error fault after') ∧
    ∀ pace limit total after, drive pace limit 0 small = .ok (some total) after →
      ∃ after', drive pace limit 0 large = .ok (some total) after' ∧
        after'.processor = after.processor ∧ after'.printed = after.printed := by
  have start : Extends large.memory small.configuration large.configuration :=
    ⟨processor, printed, agree, fun _ _ => rfl⟩
  have related := runs.extends start
  obtain ⟨runs', last⟩ := related count (Nat.le_refl _)
  refine ⟨runs', fun k within => (related k within).2, ?_, ?_, ?_⟩
  · intro k within status after succeeded
    obtain ⟨following, succeeded', _⟩ :=
      step_of_extends (related k (Nat.le_of_lt within)).2 succeeded
    exact ⟨following, succeeded'⟩
  · intro fault after faulted sizeless
    exact step_fault_of_extends last faulted sizeless
  · intro pace limit total after driven
    obtain ⟨following, driven', same⟩ := drive_of_extends start driven
    exact ⟨following, driven', same.processor, same.printed⟩

theorem halt_in_last_cell_with_more_memory :
    let small : Machine 6 := .start (Memory.zeros.overwrite 0 #[0x99, 0, 5, 0x43, 0, 1])
    let large : Machine 9 := .start (Memory.zeros.overwrite 0 #[0x99, 0, 5, 0x43, 0, 1, 7, 7, 7])
    small.Runs 3 ∧ large.Runs 3 ∧
      ∃ after, drive .free 9 0 large = .ok (some 3) after ∧ after.printed = [5] := by
  intro small large
  have runs : small.Runs 3 := by decide +kernel
  have processor : large.processor = small.processor := rfl
  have printed : large.printed = small.printed := rfl
  have agree : ∀ address < 6, large.memory.get? address = small.memory.get? address := by
    decide +kernel
  have answer : (drive .free 9 0).answer? small = some (some 3) := by decide +kernel
  have output : ((drive .free 9 0).leaves small).printed = [5] := by decide +kernel
  obtain ⟨runs', _, _, _, driven⟩ := more_memory_runs_alike processor printed agree runs
  obtain ⟨after, succeeded, _, same⟩ := driven .free 9 3 _ (apply_eq_ok.mpr ⟨answer, rfl⟩)
  exact ⟨runs, runs', after, succeeded, same.trans output⟩

end Machine

end ByteMachine
