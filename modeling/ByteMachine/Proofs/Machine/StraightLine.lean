import ByteMachine.Proofs.Encoding
import ByteMachine.Proofs.Machine.Ending
import ByteMachine.Proofs.Machine.Reachable
import Mathlib.Data.List.Induction
import Mathlib.Logic.Function.Basic

/-! Programs without jumps and without a stack, as arithmetic. The registers of such a program are
bytes that wrap around; a reckoning does the same sums and products over the natural numbers and
never reduces any of them. Reducing commutes with each instruction, so the machine shows the
residues of the reckoning after every number of steps, and where it ends is decided by what the
memory holds behind the program. -/
namespace ByteMachine

variable {size : Nat}

/-- An instruction that neither jumps nor uses the stack nor halts. -/
inductive Plain where
  | ldi (target : Register) (value : Byte)
  | arithmetic (operation : Arithmetic) (target source : Register)
  | cmp (left right : Register)
  | prn (source : Register)
  deriving DecidableEq, Repr

namespace Plain

def instruction : Plain → Instruction
  | ldi target value => .ldi target value
  | arithmetic operation target source => .arithmetic operation target source
  | cmp left right => .cmp left right
  | prn source => .prn source

/-- The bytes of a program. -/
def code (program : List Plain) : List Byte :=
  Encoding.image (program.map fun i => i.instruction.encoding)

theorem code_concat (program : List Plain) (i : Plain) :
    code (program ++ [i]) = code program ++ i.instruction.encoding.bytes := by
  simp only [code, List.map_append, Encoding.image_append]
  exact congrArg (code program ++ ·) (List.append_nil _)

end Plain

/-- The operation on natural numbers. -/
def Arithmetic.exact : Arithmetic → Nat → Nat → Nat
  | .add, x, y => x + y
  | .mul, x, y => x * y

theorem Arithmetic.toNat_apply (operation : Arithmetic) {a b : Byte} {x y : Nat}
    (left : a.toNat = x % 256) (right : b.toNat = y % 256) :
    (operation.apply a b).toNat = operation.exact x y % 256 := by
  cases operation with
  | add =>
    change (a + b).toNat = (x + y) % 256
    rw [UInt8.toNat_add, left, right, ← Nat.add_mod]
  | mul =>
    change (a * b).toNat = (x * y) % 256
    rw [UInt8.toNat_mul, left, right, ← Nat.mul_mod]

/-- The state of a computation over the natural numbers. -/
structure Reckoning where
  registers : Register → Nat
  /-- The two numbers compared last. -/
  compared : Option (Nat × Nat)
  printed : List Nat

namespace Reckoning

def initial : Reckoning where
  registers register := (RegisterFile.initial.get register).toNat
  compared := none
  printed := []

def perform (reckoning : Reckoning) : Plain → Reckoning
  | .ldi target value =>
    { reckoning with registers := Function.update reckoning.registers target value.toNat }
  | .arithmetic operation target source =>
    { reckoning with
      registers := Function.update reckoning.registers target
        (operation.exact (reckoning.registers target) (reckoning.registers source)) }
  | .cmp left right =>
    { reckoning with compared := some (reckoning.registers left, reckoning.registers right) }
  | .prn source => { reckoning with printed := reckoning.printed ++ [reckoning.registers source] }

def run (program : List Plain) : Reckoning :=
  program.foldl perform initial

theorem run_concat (program : List Plain) (i : Plain) :
    run (program ++ [i]) = (run program).perform i :=
  List.foldl_append

/-- The one flag for the order of the residues of two numbers. -/
def flagBits : Option (Nat × Nat) → Byte
  | none => 0
  | some (x, y) =>
    match compare (x % 256) (y % 256) with
    | .eq => Flags.equal
    | .gt => Flags.greater
    | .lt => Flags.less

theorem bits_compare {a b : Byte} {x y : Nat} (left : a.toNat = x % 256)
    (right : b.toNat = y % 256) : (Flags.compare a b).bits = flagBits (some (x, y)) := by
  simp only [Flags.compare, flagBits, ← left, ← right]
  rcases Nat.lt_trichotomy a.toNat b.toNat with less | same | greater
  · have different : a ≠ b := fun same => Nat.lt_irrefl _ (same ▸ less)
    have unordered : ¬ a > b := fun above => Nat.lt_asymm less (UInt8.lt_iff_toNat_lt.mp above)
    simp only [if_neg different, if_neg unordered, Nat.compare_eq_lt.mpr less]
  · simp only [if_pos (UInt8.toNat_inj.mp same), Nat.compare_eq_eq.mpr same]
  · have different : a ≠ b := fun same => Nat.lt_irrefl _ (same ▸ greater)
    simp only [if_neg different, if_pos (UInt8.lt_iff_toNat_lt.mpr greater),
      Nat.compare_eq_gt.mpr greater]

/-- A configuration shows the residues of a reckoning. -/
structure ShownBy (reckoning : Reckoning) (c : Configuration size) : Prop where
  registers : ∀ register, (c.get register).toNat = reckoning.registers register % 256
  flags : c.processor.flags.bits = flagBits reckoning.compared
  printed : c.printed.map UInt8.toNat = reckoning.printed.map (· % 256)

namespace ShownBy

variable {reckoning : Reckoning} {c : Configuration size}

theorem set (shown : reckoning.ShownBy c) (target : Register) {value : Byte} {number : Nat}
    (residue : value.toNat = number % 256) :
    { reckoning with
      registers := Function.update reckoning.registers target number }.ShownBy
      (c.set target value) where
  registers register := by
    change _ = Function.update reckoning.registers target number register % 256
    by_cases same : register = target
    · subst same
      rw [Configuration.get_set_self, Function.update_self, residue]
    · rw [Configuration.get_set_of_ne _ _ _ _ same, Function.update_of_ne same]
      exact shown.registers register
  flags := shown.flags
  printed := shown.printed

end ShownBy

end Reckoning

open Reckoning

/-- Performing an instruction and reducing the numbers come to the same in either order. -/
theorem Plain.performs (i : Plain) (c : Configuration size) :
    ∃ after, c.Performs i.instruction .next after ∧ after.memory = c.memory ∧
      after.processor.status = c.processor.status ∧
      ∀ reckoning : Reckoning, reckoning.ShownBy c → (reckoning.perform i).ShownBy after := by
  cases i with
  | ldi target value =>
    refine ⟨_, .ldi target value, rfl, rfl, fun reckoning shown => shown.set target ?_⟩
    exact (Nat.mod_eq_of_lt value.toNat_lt).symm
  | arithmetic operation target source =>
    refine ⟨_, .arithmetic operation target source, rfl, rfl, fun reckoning shown => ?_⟩
    exact shown.set target
      (operation.toNat_apply (shown.registers target) (shown.registers source))
  | cmp left right =>
    refine ⟨_, .cmp left right, rfl, rfl, fun reckoning shown => ?_⟩
    exact { shown with flags := bits_compare (shown.registers left) (shown.registers right) }
  | prn source =>
    refine ⟨_, .prn source, rfl, rfl, fun reckoning shown => { shown with printed := ?_ }⟩
    change (c.printed ++ [c.get source]).map UInt8.toNat =
      (reckoning.printed ++ [reckoning.registers source]).map (· % 256)
    rw [List.map_append, List.map_append, shown.printed, List.map_singleton,
      shown.registers source, List.map_singleton]

namespace Configuration

/-- A configuration that shows what a program computes, with the memory as it was and the program
counter at a position. -/
structure Computed (memory : Memory size) (program : List Plain) (position : Nat)
    (c : Configuration size) : Prop where
  shown : (run program).ShownBy c
  memory_eq : c.memory = memory
  pc_eq : c.pc.toNat = position

variable {memory : Memory size} {program : List Plain} {position : Nat} {c : Configuration size}

/-- What the memory holds at the position comes next. -/
theorem Computed.current (addressable : size ≤ 0xFFFF)
    (computed : Computed memory program position c) {i : Instruction}
    (running : c.isHalted = false) (held : memory.Holds position i.encoding.bytes) :
    c.current? = some i := by
  rw [← computed.memory_eq, ← computed.pc_eq] at held
  have found := Memory.instructionAt_of_holds (Nat.le_succ_of_le addressable) held
  exact current?_eq_some.mpr ⟨running, found⟩

end Configuration

namespace Machine

open Exec ByteMachine.Configuration

variable {memory : Memory size} {program : List Plain} {machine : Machine size} {position : Nat}

section Next

variable (addressable : size ≤ 0xFFFF) (running : machine.isHalted = false)
variable (computed : Computed memory program position machine.configuration)

include addressable running computed

theorem plain_step {i : Plain} (held : memory.Holds position i.instruction.encoding.bytes) :
    step machine = .ok .running (machine.after 1) ∧ machine.executes? = some i.instruction ∧
      Computed memory (program ++ [i]) (position + i.instruction.encoding.bytes.length)
        (machine.after 1).configuration := by
  have current := computed.current addressable running held
  obtain ⟨c, effect, memory_eq, status, shown⟩ := i.performs machine.configuration
  obtain ⟨succeeded, executes, left⟩ := step_of_performs current effect
  have fits := Nat.le_trans (length_le_of_current current) addressable
  rw [status, status_of_running (c := machine.configuration) running] at succeeded
  refine ⟨succeeded, executes, ?_⟩
  rw [left]
  constructor
  · rw [run_concat]
    have after := shown (run program) computed.shown
    exact ⟨after.registers, after.flags, after.printed⟩
  · exact memory_eq.trans computed.memory_eq
  · rw [← effect.pc] at fits
    rw [toNat_pc_advance _ fits, effect.pc, computed.pc_eq, Encoding.length_bytes]
    rfl

theorem halt_step (held : memory.Holds position Instruction.hlt.encoding.bytes) :
    step machine = .ok .halted (machine.after 1) ∧ machine.executes? = some .hlt ∧
      Computed memory program (position + 1) (machine.after 1).configuration := by
  have current := computed.current addressable running held
  obtain ⟨succeeded, executes, left⟩ := step_of_performs current .hlt
  have fits := Nat.le_trans (length_le_of_current current) addressable
  refine ⟨succeeded, executes, ?_⟩
  rw [left]
  constructor
  · exact ⟨computed.shown.registers, computed.shown.flags, computed.shown.printed⟩
  · exact computed.memory_eq
  · rw [toNat_pc_advance (c := machine.configuration.halt) _ fits]
    exact congrArg (· + 1) computed.pc_eq

end Next

/-- A program takes one step for each of its instructions, in their order. -/
theorem computes (addressable : size ≤ 0xFFFF) (held : memory.Holds 0 (Plain.code program)) :
    (start memory).StaysRunning program.length ∧
      (start memory).history program.length = program.map Plain.instruction ∧
      Computed memory program (Plain.code program).length
        ((start memory).after program.length).configuration := by
  induction program using List.reverseRecOn with
  | nil =>
    refine ⟨.zero rfl, rfl, ⟨?_, rfl, rfl⟩, rfl, rfl⟩
    intro register
    exact (Nat.mod_eq_of_lt (UInt8.toNat_lt _)).symm
  | append_singleton program i ih =>
    rw [Plain.code_concat, Memory.holds_append, Nat.zero_add] at held
    obtain ⟨stays, history, computed⟩ := ih held.1
    have running := stays.running program.length (Nat.le_refl _)
    obtain ⟨last, executes, computed⟩ := plain_step addressable running computed held.2
    rw [List.length_append, List.map_append, Plain.code_concat, List.length_append]
    refine ⟨stays.snoc last, ?_, computed⟩
    change (start memory).history (program.length + 1) = _
    rw [history_succ, history, executes]
    rfl

/-- Where a program ends, a cell that is zero holds no opcode, and behind the last cell is none. -/
def faultBehind (size position : Nat) : Fault :=
  if position < size then .invalidOpcode 0 (UInt16.ofNat position)
  else .addressOutOfRange position

theorem step_behind {bytes : List Byte} (running : machine.isHalted = false)
    (loaded : memory.BeginsWith bytes)
    (computed : Computed memory program bytes.length machine.configuration) :
    ∃ after, step machine = .error (faultBehind size bytes.length) after ∧
      machine.executes? = none ∧ after.configuration = machine.configuration := by
  have here : machine.processor.pc.toNat = bytes.length := computed.pc_eq
  have kept : machine.memory = memory := computed.memory_eq
  have unknown : machine.memory.opcodeAt machine.processor.pc =
      .error (faultBehind size bytes.length) := by
    rw [Memory.opcodeAt_eq_error, kept, here, faultBehind]
    split
    · rename_i inside
      refine .inr ⟨0, ?_, by decide, ?_⟩
      · rw [loaded.cell _ inside, List.getD_eq_getElem?_getD,
          List.getElem?_eq_none (Nat.le_refl _), Option.getD_none]
      · rw [← here, UInt16.ofNat_toNat]
    · rename_i outside
      exact .inl ⟨Memory.get?_eq_none_iff.mpr (Nat.le_of_not_lt outside), rfl⟩
  obtain ⟨after, faulted, unchanged⟩ := step_refuses running
    (Memory.instructionAt_eq_error.mpr (.inl (Memory.encodingAt_eq_error.mpr (.inl unknown))))
  exact ⟨after, faulted, by simp only [executes?, faulted], unchanged⟩

/-- A program without jumps and without a stack, at the beginning of a memory that is zero behind
it, does its arithmetic modulo 256. Each instruction is executed once and in its order, and then
the registers, the flags and the values printed are the residues of those of a computation that
never reduces, and the memory is as it was. A halt behind the program ends the run there; without
one the run faults in the first cell behind the program, or for the lack of that cell. -/
theorem straight_line_computes_residues (addressable : size ≤ 0xFFFF) (program : List Plain)
    (memory : Memory size) :
    let machine := start memory
    let count := program.length
    let length := (Plain.code program).length
    let instructions := program.map Plain.instruction
    (memory.BeginsWith (Plain.code program ++ [Opcode.hlt.byte]) → ∀ pace, ∃ after,
      Answers pace machine (count + 1) after ∧
      machine.history (count + 1) = instructions ++ [.hlt] ∧
      Computed memory program (length + 1) after.configuration) ∧
    (memory.BeginsWith (Plain.code program) → ∀ pace, ∃ after,
      Fails pace machine (faultBehind size length) after ∧
      machine.history (count + 1) = instructions ∧
      Computed memory program length after.configuration) := by
  intro machine count length instructions
  constructor
  · intro loaded pace
    obtain ⟨held, ending⟩ := Memory.holds_append.mp loaded.holds
    rw [Nat.zero_add] at ending
    obtain ⟨stays, history, computed⟩ := computes addressable held
    have running := stays.running count (Nat.le_refl _)
    obtain ⟨last, executes, computed⟩ := halt_step addressable running computed ending
    refine ⟨_, ⟨_, drive_of_halts rfl (stays.haltsAfter last)⟩, ?_, ?_⟩
    · rw [history_succ, history, executes]
      rfl
    · rw [configuration_announce]
      exact computed
  · intro loaded pace
    obtain ⟨stays, history, computed⟩ := computes addressable loaded.holds
    have running := stays.running count (Nat.le_refl _)
    obtain ⟨after, faulted, idle, kept⟩ := step_behind running loaded computed
    refine ⟨after, ⟨_, drive_of_fault stays faulted⟩, ?_, ?_⟩
    · rw [history_succ, history, idle]
      exact List.append_nil _
    · rw [kept]
      exact computed

/-- A sum and a product that pass 255, and between them a comparison whose result the reduction
turns round: in a memory that a halt fills to its last cell, and in one without room for a halt. -/
theorem overflowing_program_computes :
    let program : List Plain := [.ldi 0 200, .ldi 1 200, .arithmetic .add 0 0, .cmp 0 1,
      .arithmetic .mul 0 1, .prn 0]
    let bytes : List Byte :=
      [0x99, 0, 200, 0x99, 1, 200, 0xA8, 0, 0, 0xA0, 0, 1, 0xAA, 0, 1, 0x43, 0]
    Plain.code program = bytes ∧ (run program).registers 0 = 80000 ∧
      (∃ memory : Memory 18, ∃ after, memory.BeginsWith (bytes ++ [1]) ∧
        Answers .free (start memory) 7 after ∧
        after.configuration.printed.map UInt8.toNat = [80000 % 256] ∧
        after.configuration.processor.flags.bits = Flags.less) ∧
      ∃ memory : Memory 17, ∃ after, memory.BeginsWith bytes ∧
        Fails .free (start memory) (.addressOutOfRange 17) after ∧
        (after.configuration.get 0).toNat = 80000 % 256 := by
  intro program bytes
  have code : Plain.code program = bytes := by decide +kernel
  refine ⟨code, rfl, ?_, ?_⟩
  · have loaded : (Memory.zeros.overwrite 0 (bytes ++ [1]).toArray : Memory 18).BeginsWith
        (bytes ++ [1]) := Memory.beginsWith_overwrite (by decide)
    obtain ⟨after, answers, _, computed⟩ :=
      (straight_line_computes_residues (by decide) program _).1 (code.symm ▸ loaded) .free
    exact ⟨_, after, loaded, answers, computed.shown.printed, computed.shown.flags⟩
  · have loaded : (Memory.zeros.overwrite 0 bytes.toArray : Memory 17).BeginsWith bytes :=
      Memory.beginsWith_overwrite (by decide)
    obtain ⟨after, fails, _, computed⟩ :=
      (straight_line_computes_residues (by decide) program _).2 (code.symm ▸ loaded) .free
    exact ⟨_, after, loaded, code ▸ fails, computed.shown.registers 0⟩

end Machine

end ByteMachine
