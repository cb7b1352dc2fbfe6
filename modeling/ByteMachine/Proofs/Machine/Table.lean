import ByteMachine.Proofs.Encoding
import ByteMachine.Proofs.Machine.Reachable

/-! The instruction table: what each instruction changes, part by part. An entry lists changes and
nothing else, so whatever it does not list stays as it was. A step that succeeds makes the changes
of the instruction whose bytes are at the program counter. -/
namespace ByteMachine

variable {size : Nat}

/-- The single flag for the order of two numbers. -/
def Flags.ofOrdering : Ordering → Flags
  | .lt => ⟨less⟩
  | .eq => ⟨equal⟩
  | .gt => ⟨greater⟩

/-- What an instruction changes. The registers are written in the order of the list, and without a
jump the program counter moves behind the instruction. -/
structure Change where
  registers : List (Register × Byte) := []
  cell : Option (Nat × Byte) := none
  printed : List Byte := []
  flags : Option Flags := none
  halts : Bool := false
  jump : Option Address := none
  deriving DecidableEq

/-- The memory with at most one cell written. -/
def Memory.update (memory : Memory size) : Option (Nat × Byte) → Memory size
  | some (address, value) => memory.set address value
  | none => memory

/-- The registers after some have been written. -/
def RegisterFile.update (file : RegisterFile) (writes : List (Register × Byte)) : RegisterFile :=
  writes.foldl (fun file (register, value) => file.set register value) file

namespace Configuration

/-- The entry of an instruction in the table. -/
def change (c : Configuration size) : Instruction → Change
  | .hlt => { halts := true }
  | .ldi target value => { registers := [(target, value)] }
  | .prn source => { printed := [c.get source] }
  | .arithmetic .add target source =>
    { registers := [(target, UInt8.ofNat (((c.get target).toNat + (c.get source).toNat) % 256))] }
  | .arithmetic .mul target source =>
    { registers := [(target, UInt8.ofNat (((c.get target).toNat * (c.get source).toNat) % 256))] }
  | .push source =>
    { registers := [(.stackPointer, c.sp - 1)], cell := some (c.sp.toNat - 1, c.get source) }
  -- the second write wins where the target is the stack pointer
  | .pop target => { registers := [(.stackPointer, c.sp + 1), (target, c.top)] }
  -- and there a call sees the pointer that it has just moved
  | .call target =>
    { registers := [(.stackPointer, c.sp - 1)]
      cell := some (c.sp.toNat - 1, UInt8.ofNat (c.pc.toNat + 2))
      jump := some (if target = .stackPointer then c.sp - 1 else c.get target).toUInt16 }
  | .ret => { registers := [(.stackPointer, c.sp + 1)], jump := some c.top.toUInt16 }
  | .cmp left right =>
    { flags := some (.ofOrdering (compare (c.get left).toNat (c.get right).toNat)) }
  | .jmp target => { jump := some (c.get target).toUInt16 }
  -- bit zero, the one for equality, has to be set for one condition and clear for the other
  | .branch condition target =>
    { jump := if c.processor.flags.bits.toNat.testBit 0 = (condition == .equal) then
        some (c.get target).toUInt16 else none }

/-- The configuration with the changes of an instruction of the given length. -/
def apply (c : Configuration size) (length : Nat) (change : Change) : Configuration size where
  processor :=
    { registers := c.processor.registers.update change.registers
      pc := change.jump.getD (c.pc + UInt16.ofNat length)
      flags := change.flags.getD c.processor.flags
      status := if change.halts then .halted else c.processor.status }
  memory := c.memory.update change.cell
  printed := c.printed ++ change.printed

/-- What is left alone by a step on an instruction. At most one cell changes and at most two
registers, one of which is the stack pointer. -/
structure Framed (i : Instruction) (before after : Configuration size) : Prop where
  memory : ∀ address, after.memory.get? address ≠ before.memory.get? address →
    (i.opcode = .push ∨ i.opcode = .call) ∧ address + 1 = before.sp.toNat
  registers : ∃ target, ∀ register, after.get register ≠ before.get register →
    register = target ∨ register = .stackPointer
  flags : after.processor.flags ≠ before.processor.flags → i.opcode = .cmp
  printed : after.printed ≠ before.printed → i.opcode = .prn
  status : after.processor.status ≠ before.processor.status → i.opcode = .hlt

end Configuration

theorem Flags.compare_eq_ofOrdering (a b : Byte) :
    compare a b = ofOrdering (Ord.compare a.toNat b.toNat) := by
  have greater : a > b ↔ b.toNat < a.toNat := UInt8.lt_iff_toNat_lt
  simp only [compare, greater, ← UInt8.toNat_inj]
  rcases Nat.lt_trichotomy a.toNat b.toNat with below | same | above
  · rw [if_neg (Nat.ne_of_lt below), if_neg (Nat.lt_asymm below), Nat.compare_eq_lt.mpr below]
    rfl
  · rw [if_pos same, Nat.compare_eq_eq.mpr same]
    rfl
  · rw [if_neg (Nat.ne_of_gt above), if_pos above, Nat.compare_eq_gt.mpr above]
    rfl

theorem Flags.contains_equal (flags : Flags) :
    flags.contains equal = flags.bits.toNat.testBit 0 := by
  have bit : (flags.bits &&& equal).toNat = flags.bits.toNat % 2 :=
    (UInt8.toNat_and flags.bits equal).trans (Nat.and_one_is_mod _)
  have zero : flags.bits &&& equal = 0 ↔ flags.bits.toNat % 2 = 0 := by
    rw [← bit, ← UInt8.toNat_inj]
    rfl
  rw [Nat.testBit_zero, contains, Bool.eq_iff_iff, bne_iff_ne, ne_eq, zero, decide_eq_true_iff]
  omega

/-- A condition is told by one bit of the flags. -/
theorem Flags.meets_iff (flags : Flags) (condition : Condition) :
    flags.meets condition = true ↔ flags.bits.toNat.testBit 0 = (condition == .equal) := by
  cases condition with
  | equal =>
    rw [meets, contains_equal]
    rfl
  | different =>
    rw [meets, contains_equal, Bool.not_eq_true']
    rfl

theorem Memory.get?_update_ne {memory : Memory size} {cell : Option (Nat × Byte)} {address : Nat}
    (differs : (memory.update cell).get? address ≠ memory.get? address) :
    ∃ value, cell = some (address, value) := by
  cases cell with
  | none => exact absurd rfl differs
  | some write =>
    obtain ⟨target, value⟩ := write
    by_cases same : target = address
    · exact ⟨value, by rw [same]⟩
    · exact absurd ((get?_set memory target address value).trans (if_neg same)) differs

theorem RegisterFile.get_update_ne {file : RegisterFile} {writes : List (Register × Byte)}
    {register : Register} (differs : (file.update writes).get register ≠ file.get register) :
    ∃ value, (register, value) ∈ writes := by
  induction writes generalizing file with
  | nil => exact absurd rfl differs
  | cons write writes ih =>
    obtain ⟨target, value⟩ := write
    by_cases same : register = target
    · exact ⟨value, by rw [same]; exact List.mem_cons_self⟩
    · rw [← file.get_set_of_ne value same] at differs
      obtain ⟨value', member⟩ := ih differs
      exact ⟨value', List.mem_cons_of_mem _ member⟩

namespace Configuration

variable {c after : Configuration size} {i : Instruction} {flow : Flow}

/-- A call by the stack pointer reads it after the push. -/
theorem get_push (c : Configuration size) (target : Register) (value : Byte) :
    (c.push value).get target = if target = .stackPointer then c.sp - 1 else c.get target := by
  split
  · rename_i same
    rw [same]
    exact c.get_set_self .stackPointer (c.sp - 1)
  · rename_i different
    exact c.get_set_of_ne .stackPointer target (c.sp - 1) different

theorem change_arithmetic (operation : Arithmetic) (target source : Register) :
    c.change (.arithmetic operation target source) =
      { registers := [(target, operation.apply (c.get target) (c.get source))] } := by
  cases operation with
  | add => rw [change, ← UInt8.toNat_add, UInt8.ofNat_toNat]; rfl
  | mul => rw [change, ← UInt8.toNat_mul, UInt8.ofNat_toNat]; rfl

/-- The rule of an instruction is its entry in the table. -/
theorem Performs.entry (effect : Performs c i flow after) :
    after.advance i.opcode flow = c.apply i.opcode.length (c.change i) := by
  have silent : c.printed ++ [] = c.printed := List.append_nil _
  cases effect with
  | prn source => rfl
  | hlt | ldi | push | pop | ret | jmp => simp only [apply, change, silent]; rfl
  | arithmetic operation target source =>
    simp only [apply, change_arithmetic, silent]
    rfl
  | call target near room =>
    rw [get_push, back_eq]
    simp only [apply, change, silent]
    rfl
  | cmp left right =>
    simp only [apply, change, silent, Flags.compare_eq_ofOrdering]
    rfl
  | taken condition target met =>
    simp only [apply, change, silent, if_pos ((Flags.meets_iff _ _).mp met)]
    rfl
  | passed condition target unmet =>
    have other := mt (Flags.meets_iff _ _).mpr (Bool.eq_false_iff.mp unmet)
    simp only [apply, change, silent, if_neg other]
    rfl

theorem Performs.cell {address : Nat} {value : Byte} (effect : Performs c i flow after)
    (written : (c.change i).cell = some (address, value)) :
    (i.opcode = .push ∨ i.opcode = .call) ∧ address + 1 = c.sp.toNat := by
  cases effect with
  | push source room =>
    cases written
    exact ⟨.inl rfl, Nat.sub_add_cancel room.1⟩
  | call target near room =>
    cases written
    exact ⟨.inr rfl, Nat.sub_add_cancel room.1⟩
  | arithmetic operation =>
    rw [change_arithmetic] at written
    contradiction
  | hlt | ldi | prn | pop | ret | cmp | jmp | taken | passed => contradiction

theorem change_registers (c : Configuration size) (i : Instruction) :
    ∃ target, ∀ register value, (register, value) ∈ (c.change i).registers →
      register = target ∨ register = .stackPointer := by
  cases i with
  | ldi target => exact ⟨target, by simp [change]⟩
  | arithmetic operation target source => exact ⟨target, by simp [change_arithmetic]⟩
  | pop target =>
    refine ⟨target, fun register value member => ?_⟩
    simp only [change, List.mem_cons, Prod.mk.injEq, List.not_mem_nil, or_false] at member
    exact member.symm.imp And.left And.left
  | push | call | ret => exact ⟨.stackPointer, by simp [change]⟩
  | hlt | prn | cmp | jmp | branch => exact ⟨.stackPointer, nofun⟩

/-- Each part that is no register is written by one instruction alone. -/
theorem change_of_ne (c : Configuration size) (i : Instruction) :
    (i.opcode ≠ .cmp → (c.change i).flags = none) ∧
    (i.opcode ≠ .prn → (c.change i).printed = []) ∧
    (i.opcode ≠ .hlt → (c.change i).halts = false) := by
  cases i with
  | cmp | prn | hlt => simp [change, Instruction.opcode]
  | arithmetic operation => simp [change_arithmetic]
  | ldi | push | pop | call | ret | jmp | branch => simp [change]

theorem Performs.near_of_call (effect : Performs c i flow after) (calls : i.opcode = .call) :
    (c.pc + 2).toNat ≤ 0xFF := by
  cases effect with
  | call target near room => exact near
  | arithmetic operation => cases operation <;> contradiction
  | taken condition | passed condition => cases condition <;> contradiction
  | hlt | ldi | prn | push | pop | ret | cmp | jmp => contradiction

theorem Performs.framed (effect : Performs c i flow after) (length : Nat) :
    Framed i c (c.apply length (c.change i)) := by
  obtain ⟨flags, printed, status⟩ := c.change_of_ne i
  constructor
  · intro address differs
    obtain ⟨value, written⟩ := Memory.get?_update_ne differs
    exact effect.cell written
  · obtain ⟨target, known⟩ := c.change_registers i
    refine ⟨target, fun register differs => ?_⟩
    obtain ⟨value, member⟩ := RegisterFile.get_update_ne differs
    exact known register value member
  · intro differs
    refine Decidable.byContradiction fun other => differs ?_
    exact congrArg (·.getD c.processor.flags) (flags other)
  · intro differs
    refine Decidable.byContradiction fun other => differs ?_
    exact (congrArg (c.printed ++ ·) (printed other)).trans (List.append_nil _)
  · intro differs
    refine Decidable.byContradiction fun other => differs ?_
    exact if_neg (Bool.eq_false_iff.mp (status other))

end Configuration

namespace Exec

open ByteMachine.Configuration

/-- A step that succeeds on a running machine executes the instruction whose bytes are at the
program counter. The machine is then as the table has it: only what the entry lists has changed,
and without a jump the program counter is behind the instruction. -/
theorem step_changes_entry (addressable : size ≤ 0xFFFF) {machine final : Machine size}
    {status : Status} (running : machine.isHalted = false)
    (succeeded : step machine = .ok status final) :
    let before := machine.configuration
    let after := final.configuration
    ∃ i, before.memory.Holds before.pc.toNat i.encoding.bytes ∧
      after = before.apply i.opcode.length (before.change i) ∧ status = after.processor.status ∧
      ((before.change i).jump = none → after.pc.toNat = before.pc.toNat + i.opcode.length) ∧
      (i.opcode = .call → before.pc.toNat + 2 ≤ 0xFF) ∧
      Framed i before after := by
  intro before after
  obtain ⟨steps, answered⟩ := steps_of_step succeeded
  change before.Steps after at steps
  change status = after.processor.status at answered
  generalize after = after at steps answered
  cases steps with
  | rests halted => exact absurd (running.symm.trans halted) Bool.noConfusion
  | @performs i flow c current effect =>
    rw [effect.entry] at answered ⊢
    have fits := Nat.le_trans (length_le_of_current current) addressable
    refine ⟨i, Memory.holds_of_instructionAt (current?_eq_some.mp current).2, rfl, answered, ?_, ?_,
      effect.framed i.opcode.length⟩
    · intro straight
      have moved := before.toNat_pc_advance i.opcode fits
      rw [← moved, apply, straight]
      rfl
    · intro calls
      rw [calls] at fits
      have near := effect.near_of_call calls
      rwa [toNat_pc_add_two_of_lt (Nat.lt_succ_of_le fits)] at near

/-- A call by the stack pointer, which is where the return address goes and also the target. -/
theorem call_by_stack_pointer_changes_entry :
    let machine : Machine 16 :=
      (Machine.start (Memory.zeros.overwrite 0 #[0x99, 7, 9, 0x48, 7])).after 1
    ∃ final, step machine = .ok .running final ∧
      final.configuration.memory.get? 8 = some 5 ∧ final.configuration.sp = 8 ∧
      final.configuration.pc = 8 ∧ Framed (.call 7) machine.configuration final.configuration := by
  intro machine
  have running : machine.isHalted = false := by decide +kernel
  have succeeded : step.answer? machine = some .running := by decide +kernel
  refine ⟨_, apply_eq_ok.mpr ⟨succeeded, rfl⟩, ?_⟩
  obtain ⟨i, held, entry, _, _, _, framed⟩ :=
    step_changes_entry (by decide) running (apply_eq_ok.mpr ⟨succeeded, rfl⟩)
  have current : machine.configuration.current? = some (.call 7) := by decide +kernel
  have decoded := (current?_eq_some.mp current).2
  cases (Memory.instructionAt_of_holds (by decide) held).symm.trans decoded
  refine ⟨?_, ?_, ?_, framed⟩
  · rw [entry]
    decide +kernel
  · rw [entry]
    decide +kernel
  · rw [entry]
    decide +kernel

end Exec

end ByteMachine
