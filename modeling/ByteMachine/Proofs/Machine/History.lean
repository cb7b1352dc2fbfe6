import ByteMachine.Proofs.Machine.Trail

/-! What a machine has executed on its way. A step that faults or finds the machine halted executes
nothing and leaves the configuration as it was, so the status and the flags of a machine are told
by the instructions of its history: the status by the last of them, the flags by the last
comparison among them. -/
namespace ByteMachine

variable {size : Nat}

namespace Flags

/-- The flags that a comparison can leave. -/
def compared : List Flags := [⟨equal⟩, ⟨greater⟩, ⟨less⟩]

/-- The flags before the first comparison, and those that a comparison can leave. -/
def outcomes : List Flags := clear :: compared

theorem compare_mem_compared (x y : Byte) : compare x y ∈ compared := by
  unfold compare
  split
  · exact List.mem_cons_self
  · apply List.mem_cons_of_mem
    split
    · exact List.mem_cons_self
    · exact List.mem_cons_of_mem _ List.mem_cons_self

theorem compare_ne_clear (x y : Byte) : compare x y ≠ clear := by
  intro same
  have absent : clear ∉ compared := by decide
  apply absent
  rw [← same]
  exact compare_mem_compared x y

theorem contains_equal_compare (x y : Byte) : (compare x y).contains equal = true ↔ x = y := by
  unfold compare
  split
  · rename_i same
    exact iff_of_true rfl same
  · rename_i different
    refine iff_of_false ?_ different
    split <;> decide

/-- Whether a jump on a condition is taken when the last comparison was of the given bytes. Without
a comparison nothing has been found equal. -/
def Condition.Jumps : Option (Byte × Byte) → Condition → Prop
  | some (x, y), .equal => x = y
  | some (x, y), .different => x ≠ y
  | none, .equal => False
  | none, .different => True

/-- The flags that the last comparison leaves. -/
def ofComparison? : Option (Byte × Byte) → Flags
  | some (x, y) => compare x y
  | none => clear

theorem meets_ofComparison? (last : Option (Byte × Byte)) (condition : Condition) :
    (ofComparison? last).meets condition = true ↔ condition.Jumps last := by
  cases last with
  | none =>
    cases condition with
    | equal => exact iff_of_false (by decide) id
    | different => exact iff_of_true (by decide) trivial
  | some pair =>
    have found := contains_equal_compare pair.1 pair.2
    cases condition with
    | equal => exact found
    | different =>
      simp only [meets, Bool.not_eq_true', Bool.eq_false_iff]
      exact not_congr found

end Flags

namespace Configuration

variable {c after : Configuration size} {i : Instruction} {flow : Flow}

/-- Only a comparison writes the flags. -/
theorem Performs.flags (effect : Performs c i flow after) :
    after.processor.flags = match i with
      | .cmp left right => Flags.compare (c.get left) (c.get right)
      | _ => c.processor.flags := by
  cases effect with
  | cmp | hlt | ldi | prn | arithmetic | push | pop | call | ret | jmp | taken | passed => rfl

/-- Only a halt writes the status. -/
theorem Performs.status (effect : Performs c i flow after) :
    after.processor.status = if i = .hlt then .halted else c.processor.status := by
  cases effect with
  | hlt => rfl
  | cmp | ldi | prn | arithmetic | push | pop | call | ret | jmp | taken | passed => rfl

end Configuration

namespace Machine

open Exec

/-- The instruction that the next step executes: none if it faults or finds the machine halted. -/
def executes? (machine : Machine size) : Option Instruction :=
  match step machine with
  | .ok _ _ => machine.configuration.current?
  | .error _ _ => none

/-- The bytes that the next step compares, if it executes a comparison. -/
def compares? (machine : Machine size) : Option (Byte × Byte) :=
  match machine.executes? with
  | some (.cmp left right) => some (machine.configuration.get left, machine.configuration.get right)
  | _ => none

/-- What the first machines of a trail show, in order. -/
def gather {α : Type} (view : Machine size → Option α) (machine : Machine size) (count : Nat) :
    List α :=
  (List.range count).filterMap fun k => view (machine.after k)

/-- The instructions that the first steps execute. -/
def history (machine : Machine size) (count : Nat) : List Instruction :=
  gather executes? machine count

/-- The bytes that the first steps compare. -/
def comparisons (machine : Machine size) (count : Nat) : List (Byte × Byte) :=
  gather compares? machine count

variable {machine : Machine size} {i : Instruction} {count : Nat}

theorem gather_succ {α : Type} (view : Machine size → Option α) (machine : Machine size)
    (count : Nat) :
    gather view machine (count + 1) =
      gather view machine count ++ (view (machine.after count)).toList := by
  unfold gather
  rw [List.range_succ, List.filterMap_append]
  cases shown : view (machine.after count) <;> simp [shown]

theorem history_succ (machine : Machine size) (count : Nat) :
    machine.history (count + 1) =
      machine.history count ++ (machine.after count).executes?.toList :=
  gather_succ executes? machine count

theorem step_of_performs {flow : Flow} {c : Configuration size}
    (current : machine.configuration.current? = some i)
    (effect : machine.configuration.Performs i flow c) :
    step machine = .ok c.processor.status (machine.after 1) ∧ machine.executes? = some i ∧
      (machine.after 1).configuration = c.advance i.opcode flow := by
  obtain ⟨after, succeeded, left⟩ := step_of_steps (.performs current effect)
  rw [after_one succeeded]
  refine ⟨succeeded, ?_, left⟩
  simp only [executes?, succeeded, current]

/-- A step executes an instruction by its rule, or it executes nothing and changes nothing that a
program can see. -/
theorem executes?_cases (machine : Machine size) (k : Nat) :
    (∃ i flow c, (machine.after k).executes? = some i ∧
        (machine.after k).configuration.current? = some i ∧
        (machine.after k).configuration.Performs i flow c ∧
        (machine.after (k + 1)).configuration = c.advance i.opcode flow) ∨
      ((machine.after k).executes? = none ∧
        (machine.after (k + 1)).configuration = (machine.after k).configuration) := by
  obtain ⟨fault, stopped, _, faulted, kept⟩ | ⟨after, succeeded, steps⟩ :=
    step_outcome (machine.after k)
  · refine .inr ⟨by simp only [executes?, faulted], ?_⟩
    simpa only [Machine.after, leaves, faulted] using kept
  · have left : machine.after (k + 1) = after := after_one succeeded
    rw [left]
    generalize reached : after.configuration = c at steps
    cases steps with
    | rests halted =>
      refine .inr ⟨?_, rfl⟩
      simp only [executes?, succeeded, Configuration.current?, if_pos halted]
    | @performs i flow c current effect =>
      refine .inl ⟨i, flow, c, ?_, current, effect, rfl⟩
      simp only [executes?, succeeded, current]

theorem compares?_eq_none_iff :
    machine.compares? = none ↔ ∀ left right, machine.executes? ≠ some (.cmp left right) := by
  unfold compares?
  split
  · rename_i left right executes
    simp [executes]
  · rename_i other
    exact iff_of_true rfl other

theorem compares?_of_none (idle : machine.executes? = none) : machine.compares? = none :=
  compares?_eq_none_iff.mpr fun _ _ executes => nomatch idle.symm.trans executes

/-- The comparisons of a history are those of its instructions that compare. -/
theorem comparisons_eq_nil_iff :
    machine.comparisons count = [] ↔ ∀ left right, .cmp left right ∉ machine.history count := by
  simp only [comparisons, history, gather, List.filterMap_eq_nil_iff, List.mem_range,
    List.mem_filterMap, not_exists, not_and, compares?_eq_none_iff]
  exact ⟨fun h left right k within => h k within left right,
    fun h k within left right => h left right k within⟩

/-- The flags are those that the last comparison has left, whatever was executed after it. -/
theorem flags_after (clear : machine.processor.flags = .clear) (count : Nat) :
    (machine.after count).configuration.processor.flags =
      Flags.ofComparison? (machine.comparisons count).getLast? := by
  induction count with
  | zero => exact clear
  | succ count ih =>
    rw [comparisons, gather_succ, List.getLast?_append]
    obtain ⟨i, flow, c, executes, _, effect, left⟩ | ⟨idle, left⟩ := executes?_cases machine count
    · rw [left]
      refine effect.flags.trans ?_
      cases i with
      | cmp x y => simp only [compares?, executes]; rfl
      | hlt | ldi | prn | arithmetic | push | pop | call | ret | jmp | branch =>
        simp only [compares?, executes]
        exact ih
    · rw [left, compares?_of_none idle]
      exact ih

/-- A machine that runs is halted by nothing but a halt instruction, after which it executes no
more. -/
theorem isHalted_after_iff (running : machine.isHalted = false) (count : Nat) :
    (machine.after count).configuration.isHalted = true ↔
      (machine.history count).getLast? = some .hlt := by
  induction count with
  | zero => exact iff_of_false (Bool.eq_false_iff.mp running) nofun
  | succ count ih =>
    rw [history_succ, List.getLast?_append]
    obtain ⟨i, flow, c, executes, current, effect, left⟩ | ⟨idle, left⟩ :=
      executes?_cases machine count
    · have running := (Configuration.current?_eq_some.mp current).1
      rw [left, executes]
      change (c.processor.status == .halted) = true ↔ some i = _
      rw [effect.status, Option.some.injEq]
      split
      · rename_i halts
        exact iff_of_true rfl halts
      · rename_i other
        exact iff_of_false (Bool.eq_false_iff.mp running) other
    · rw [left, idle]
      exact ih

/-- A conditional jump is decided by the last comparison before it and by nothing else: not by
what else was executed since, not by a step that faulted, and not by what the registers hold now. -/
theorem branch_follows_last_comparison (memory : Memory size) (count : Nat)
    {condition : Flags.Condition} {target : Register}
    (executes : ((start memory).after count).executes? = some (.branch condition target)) :
    let last := ((start memory).comparisons count).getLast?
    let before := ((start memory).after count).configuration
    let after := ((start memory).after (count + 1)).configuration
    (condition.Jumps last → after.pc = (before.get target).toUInt16) ∧
      (¬ condition.Jumps last → after.pc = before.pc + 2) := by
  intro last before after
  have decides : before.processor.flags.meets condition = true ↔ condition.Jumps last := by
    rw [show before.processor.flags = _ from flags_after rfl count, Flags.meets_ofComparison?]
  obtain ⟨i, flow, c, executes', _, effect, left⟩ | ⟨idle, _⟩ :=
    executes?_cases (start memory) count
  · cases executes.symm.trans executes'
    have moved : after.pc = _ := congrArg Configuration.pc left
    rw [moved]
    cases effect with
    | taken _ _ met => exact ⟨fun _ => rfl, fun stays => absurd (decides.mp met) stays⟩
    | passed _ _ unmet =>
      refine ⟨fun jumps => ?_, fun _ => ?_⟩
      · exact absurd (unmet.symm.trans (decides.mpr jumps)) Bool.noConfusion
      · have length : UInt16.ofNat (Instruction.branch condition target).opcode.length = 2 := by
          rw [Opcode.length, Opcode.operandCount_eq]
          cases condition <;> rfl
        exact congrArg (before.pc + ·) length
  · cases executes.symm.trans idle

/-- A jump on equality after its own register, one of the two compared, has been changed. -/
theorem branch_after_changed_operand :
    let memory : Memory 16 := Memory.zeros.overwrite 0 #[0xA0, 0, 1, 0x99, 0, 12, 0x51, 0]
    ((start memory).after 2).executes? = some (.branch .equal 0) ∧
      ((start memory).comparisons 2).getLast? = some (0, 0) ∧
      ((start memory).after 3).configuration.pc = 12 := by
  intro memory
  have executes : ((start memory).after 2).executes? = some (.branch .equal 0) := by
    decide +kernel
  have last : ((start memory).comparisons 2).getLast? = some (0, 0) := by decide +kernel
  have register : ((start memory).after 2).configuration.get 0 = 12 := by decide +kernel
  have jumps : Flags.Condition.Jumps ((start memory).comparisons 2).getLast? .equal := by
    rw [last]
    rfl
  refine ⟨executes, last, ((branch_follows_last_comparison memory 2 executes).1 jumps).trans ?_⟩
  rw [register]
  rfl

end Machine

end ByteMachine
