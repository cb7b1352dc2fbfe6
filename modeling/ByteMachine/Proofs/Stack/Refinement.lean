import ByteMachine.Proofs.Machine.Trail
import ByteMachine.Proofs.Stack.ListMachine

/-! A run that treats the cells below its first stack pointer as a stack, and its code as none of
them, is a run of the list machine. The relation between the two ties the stack pointer to the depth
of the list and the cells from the stack pointer upwards to its bytes; every rule keeps it. -/
namespace ByteMachine

variable {size : Nat}

namespace Instruction

/-- The register that an instruction names as its destination. -/
def destination? : Instruction → Option Register
  | ldi target _ | arithmetic _ target _ | pop target => some target
  | _ => none

def pops : Instruction → Bool
  | pop _ | ret => true
  | _ => false

end Instruction

namespace ListMachine

theorem ne_stackPointer_of_low {register : Register} (low : register.val < 7) :
    register ≠ .stackPointer :=
  fun same => absurd (same ▸ low : Register.stackPointer.val < 7) (by decide)

/-- The list machine shows what the machine does over the same code. No cell from `base` upwards or
below `lowest` differs from the code. -/
structure Represents (code : Memory size) (base : Byte) (lowest : Nat) (abstract : ListMachine)
    (c : Configuration size) : Prop where
  pc : abstract.pc = c.pc
  low : ∀ register (h : register.val < 7), abstract.low[register.val] = c.get register
  flags : abstract.flags = c.processor.flags
  status : abstract.status = c.processor.status
  printed : abstract.printed = c.printed
  depth : c.sp.toNat + abstract.stack.length = base.toNat
  stack : ∀ k (h : k < abstract.stack.length),
    c.memory.get? (c.sp.toNat + k) = some abstract.stack[k]
  outside : ∀ address, address < lowest ∨ base.toNat ≤ address →
    c.memory.get? address = code.get? address
  lowest_le : lowest ≤ c.sp.toNat

namespace Represents

variable {code : Memory size} {base : Byte} {lowest : Nat} {abstract : ListMachine}
variable {c after : Configuration size} {i : Instruction} {flow : Flow}

theorem start (c : Configuration size) :
    Represents c.memory c.sp c.sp.toNat (.ofConfiguration c) c where
  pc := rfl
  low register h := by simp [ofConfiguration]
  flags := rfl
  status := rfl
  printed := rfl
  depth := Nat.add_zero _
  stack k h := absurd h (Nat.not_lt_zero k)
  outside _ _ := rfl
  lowest_le := Nat.le_refl _

theorem weaken (h : Represents code base lowest abstract c) {lower : Nat} (le : lower ≤ lowest) :
    Represents code base lower abstract c :=
  { h with
    outside := fun address away => h.outside address (away.imp_left (Nat.lt_of_lt_of_le · le))
    lowest_le := Nat.le_trans le h.lowest_le }

/-- The stack pointer that the list machine computes is the one that the machine has. -/
theorem get (h : Represents code base lowest abstract c) (register : Register) :
    abstract.get base register = c.get register := by
  unfold ListMachine.get
  split
  · rename_i low
    exact h.low register low
  · rename_i high
    have last : register = .stackPointer := Fin.ext (by simp [Register.stackPointer]; omega)
    subst last
    have depth := h.depth
    have bound := base.toNat_lt
    have small : (UInt8.ofNat abstract.stack.length).toNat = abstract.stack.length :=
      Nat.mod_eq_of_lt (by omega)
    have le : UInt8.ofNat abstract.stack.length ≤ base :=
      UInt8.le_iff_toNat_le.mpr (by omega)
    apply UInt8.toNat_inj.mp
    rw [UInt8.toNat_sub_of_le _ _ le, small]
    change _ = c.sp.toNat
    omega

theorem set (h : Represents code base lowest abstract c) {register : Register}
    (different : register ≠ .stackPointer) (value : Byte) :
    ∃ following, abstract.set? register value = some following ∧
      Represents code base lowest following (c.set register value) := by
  have low : register.val < 7 := by
    have : register.val ≠ 7 := fun same => different (Fin.ext same)
    omega
  have sameSp := c.sp_set_of_ne register value different
  refine ⟨_, dif_pos low, ?_⟩
  exact
    { h with
      low := fun other otherLow => by
        by_cases same : other = register
        · subst same
          simp
        · have apart : register.val ≠ other.val := fun e => same (Fin.ext e.symm)
          rw [Configuration.get_set_of_ne c register other value same]
          simpa [apart] using h.low other otherLow
      depth := by rw [sameSp]; exact h.depth
      stack := by rw [sameSp]; exact h.stack
      lowest_le := by rw [sameSp]; exact h.lowest_le }

/-- A push conses: the new cell lies below the stack and above nothing that has to be kept. -/
theorem push (h : Represents code base lowest abstract c) (room : c.Pushable) (value : Byte) :
    Represents code base (min lowest (c.push value).sp.toNat)
      { abstract with stack := value :: abstract.stack } (c.push value) := by
  have moved := room.sp_push value
  have depth := h.depth
  have positive := room.1
  have inside := room.2
  exact
    { pc := h.pc
      flags := h.flags
      status := h.status
      printed := h.printed
      low := fun register low => (h.low register low).trans
        (c.get_set_of_ne .stackPointer register (c.sp - 1) (ne_stackPointer_of_low low)).symm
      depth := by
        simp only [List.length_cons]
        omega
      stack := fun k within => by
        rw [moved, Configuration.push_memory, Memory.get?_set]
        cases k with
        | zero => rw [if_pos (Nat.add_zero _).symm, if_pos (by omega)]; rfl
        | succ k =>
          have same : c.sp.toNat - 1 + (k + 1) = c.sp.toNat + k := by omega
          rw [if_neg (by omega), same]
          exact h.stack k (Nat.lt_of_succ_lt_succ within)
      outside := fun address away => by
        rw [moved] at away
        rw [Configuration.push_memory, Memory.get?_set, if_neg (by omega)]
        exact h.outside address (by omega)
      lowest_le := Nat.min_le_right _ _ }

/-- A pop takes the head, which is there while the stack pointer is below its start. -/
theorem pop (h : Represents code base lowest abstract c) (filled : c.Poppable)
    (below : c.sp.toNat < base.toNat) :
    ∃ rest, abstract.stack = c.top :: rest ∧
      Represents code base lowest { abstract with stack := rest } c.pop := by
  have moved := filled.sp_pop
  have depth := h.depth
  have stack := h.stack
  cases contents : abstract.stack with
  | nil => simp [contents] at depth; omega
  | cons value rest =>
    simp only [contents, List.length_cons] at depth stack
    have head := stack 0 (Nat.succ_pos _)
    have top : c.top = value := by
      simp only [Nat.add_zero, List.getElem_cons_zero] at head
      simp only [Configuration.top, head, Option.getD_some]
    refine ⟨rest, by rw [top], ?_⟩
    exact
      { pc := h.pc
        flags := h.flags
        status := h.status
        printed := h.printed
        low := fun register low => (h.low register low).trans
          (c.get_set_of_ne .stackPointer register (c.sp + 1) (ne_stackPointer_of_low low)).symm
        depth := by
          change c.pop.sp.toNat + rest.length = base.toNat
          omega
        stack := fun k within => by
          have same : c.pop.sp.toNat + k = c.sp.toNat + (k + 1) := by omega
          rw [same]
          exact stack (k + 1) (Nat.succ_lt_succ within)
        outside := h.outside
        lowest_le := by
          have le := h.lowest_le
          omega }

theorem advance (h : Represents code base lowest abstract c) (opcode : Opcode) (flow : Flow) :
    Represents code base lowest (abstract.advance opcode flow) (c.advance opcode flow) :=
  { h with
    pc := by
      cases flow with
      | next => exact congrArg (· + UInt16.ofNat opcode.length) h.pc
      | jump target => rfl }

theorem perform (h : Represents code base lowest abstract c) (effect : c.Performs i flow after)
    (fixed : i.destination? ≠ some .stackPointer)
    (bounded : i.pops = true → c.sp.toNat < base.toNat) :
    ∃ following, abstract.perform? base i = some (flow, following) ∧
      Represents code base (min lowest after.sp.toNat) following after := by
  have kept : ∀ {following} {after : Configuration size},
      Represents code base lowest following after →
      Represents code base (min lowest after.sp.toNat) following after :=
    fun related => related.weaken (Nat.min_le_left _ _)
  cases effect with
  | hlt => exact ⟨_, rfl, kept { h with status := rfl }⟩
  | ldi target value =>
    obtain ⟨following, done, related⟩ := h.set (fun same => fixed (congrArg some same)) value
    exact ⟨following, by simp only [perform?, done, Option.map_some], kept related⟩
  | prn source =>
    refine ⟨_, rfl, kept { h with printed := ?_ }⟩
    rw [h.get source]
    exact congrArg (· ++ [c.get source]) h.printed
  | arithmetic operation target source =>
    obtain ⟨following, done, related⟩ := h.set (fun same => fixed (congrArg some same))
      (operation.apply (c.get target) (c.get source))
    exact ⟨following, by simp only [perform?, h.get, done, Option.map_some], kept related⟩
  | push source room =>
    refine ⟨_, rfl, ?_⟩
    rw [h.get source]
    exact h.push room (c.get source)
  | pop target filled =>
    have different : target ≠ .stackPointer := fun same => fixed (congrArg some same)
    obtain ⟨rest, head, popped⟩ := h.pop filled (bounded rfl)
    obtain ⟨following, done, related⟩ := popped.set different c.top
    exact ⟨following, by simp only [perform?, head, done, Option.map_some], kept related⟩
  | call target near room =>
    have pushed := h.push room c.back
    have near' : (abstract.pc + 2).toNat ≤ 0xFF := h.pc ▸ near
    have same : (abstract.pc + 2).toUInt8 = c.back := by rw [h.pc]; rfl
    refine ⟨_, ?_, pushed⟩
    simp only [perform?, if_pos near', same, pushed.get target]
  | ret filled =>
    obtain ⟨rest, head, popped⟩ := h.pop filled (bounded rfl)
    exact ⟨_, by simp only [perform?, head], kept popped⟩
  | cmp left right =>
    refine ⟨_, rfl, kept { h with flags := ?_ }⟩
    rw [h.get left, h.get right]
    rfl
  | jmp target => exact ⟨_, by simp only [perform?, h.get], kept h⟩
  | taken condition target met =>
    exact ⟨_, by simp only [perform?, h.get, h.flags, met, if_true], kept h⟩
  | passed condition target unmet =>
    exact ⟨_, by simp only [perform?, h.flags, unmet, Bool.false_eq_true, if_false], kept h⟩

/-- The code still has the instruction that a step executes, because its own bytes are code. -/
theorem code_current (h : Represents code base lowest abstract c) (current : c.current? = some i)
    (apart : ∀ k < i.opcode.length, c.pc.toNat + k < lowest ∨ base.toNat ≤ c.pc.toNat + k) :
    code.instructionAt abstract.pc = .ok i := by
  rw [h.pc]
  refine Memory.instructionAt_of_shares (Configuration.current?_eq_some.mp current).2 ?_
  intro k within value content
  rw [← h.outside _ (apart k within)]
  exact content

theorem step (h : Represents code base lowest abstract c) (steps : c.Steps after)
    (fixed : ∀ i, c.current? = some i → i.destination? ≠ some .stackPointer)
    (bounded : ∀ i, c.current? = some i → i.pops = true → c.sp.toNat < base.toNat)
    (apart : ∀ i, c.current? = some i → ∀ k < i.opcode.length,
      c.pc.toNat + k < lowest ∨ base.toNat ≤ c.pc.toNat + k) :
    ∃ following, abstract.step? code base = some following ∧
      Represents code base (min lowest after.sp.toNat) following after := by
  cases steps with
  | rests halted =>
    have status : abstract.status = .halted := by
      rw [h.status]
      simpa [Configuration.isHalted, Processor.isHalted] using halted
    exact ⟨abstract, if_pos status, h.weaken (Nat.min_le_left _ _)⟩
  | @performs i flow after current effect =>
    have running := (Configuration.current?_eq_some.mp current).1
    have status : abstract.status ≠ .halted := by
      rw [h.status]
      simpa [Configuration.isHalted, Processor.isHalted] using running
    obtain ⟨following, done, related⟩ := h.perform effect (fixed i current) (bounded i current)
    refine ⟨following.advance i.opcode flow, ?_, related.advance i.opcode flow⟩
    simp only [step?, if_neg status, h.code_current current (apart i current), done,
      Option.map_some]

end Represents

end ListMachine

namespace Machine

/-- The lowest stack pointer of a machine and of its first states. -/
def lowest (machine : Machine size) : Nat → Nat
  | 0 => machine.configuration.sp.toNat
  | k + 1 => min (machine.lowest k) (machine.after (k + 1)).configuration.sp.toNat

/-- A run that uses the cells below its first stack pointer as a stack: it moves the stack pointer
by pushes and pops alone, takes nothing off an empty stack, and runs no bytes that have been part
of the stack. -/
structure KeepsStack (machine : Machine size) (count : Nat) : Prop where
  runs : machine.Runs count
  fixed : ∀ k < count, ∀ i ∈ (machine.after k).configuration.current?,
    i.destination? ≠ some .stackPointer
  bounded : ∀ k < count, ∀ i ∈ (machine.after k).configuration.current?, i.pops = true →
    (machine.after k).configuration.sp.toNat < machine.configuration.sp.toNat
  apart : ∀ k < count, ∀ i ∈ (machine.after k).configuration.current?, ∀ offset < i.opcode.length,
    (machine.after k).configuration.pc.toNat + offset < machine.lowest k ∨
      machine.configuration.sp.toNat ≤ (machine.after k).configuration.pc.toNat + offset

/-- At every step of such a run the list machine over the first memory is defined and agrees with
the machine in all that `Represents` names. -/
theorem list_machine_agrees {machine : Machine size} {count : Nat}
    (keeps : machine.KeepsStack count) :
    ∀ k ≤ count, ∃ abstract,
      (ListMachine.ofConfiguration machine.configuration).after? machine.memory
        machine.configuration.sp k = some abstract ∧
      abstract.Represents machine.memory machine.configuration.sp (machine.lowest k)
        (machine.after k).configuration := by
  intro k within
  induction k with
  | zero => exact ⟨_, rfl, .start machine.configuration⟩
  | succ k ih =>
    obtain ⟨abstract, reached, related⟩ := ih (Nat.le_of_succ_le within)
    obtain ⟨following, stepped, related'⟩ := related.step (keeps.runs.steps within)
      (keeps.fixed k within) (keeps.bounded k within) (keeps.apart k within)
    exact ⟨following, by simp only [ListMachine.after?, reached, Option.bind_some, stepped],
      related'⟩

theorem list_machine_agrees_inside_call :
    let processor : Processor :=
      { Processor.initial with registers := RegisterFile.initial.set 7 31 }
    let machine : Machine 32 :=
      { processor, memory := Memory.zeros.overwrite 0
          #[0x99, 0, 8, 0x4D, 0, 0x48, 0, 1, 0x43, 7, 9], journal := #[] }
    machine.KeepsStack 6 ∧ machine.lowest 3 = 29 ∧
    ∃ abstract, (ListMachine.ofConfiguration machine.configuration).after? machine.memory
        machine.configuration.sp 3 = some abstract ∧ abstract.stack = [7, 8] ∧
      abstract.Represents machine.memory machine.configuration.sp (machine.lowest 3)
        (machine.after 3).configuration := by
  intro processor machine
  have keeps : machine.KeepsStack 6 :=
    ⟨by decide +kernel, by decide +kernel, by decide +kernel, by decide +kernel⟩
  obtain ⟨abstract, reached, related⟩ := list_machine_agrees keeps 3 (by decide)
  have stack : ((ListMachine.ofConfiguration machine.configuration).after? machine.memory
      machine.configuration.sp 3).map ListMachine.stack = some [7, 8] := by decide +kernel
  refine ⟨keeps, by decide +kernel, abstract, reached, ?_, related⟩
  rw [reached] at stack
  exact Option.some.inj stack

end Machine

end ByteMachine
