import ByteMachine.Proofs.Machine.Fetch

/-! What an instruction and a whole step do, as a relation between configurations with one rule for
each way to succeed, and as the fault that stops them otherwise. Success and fault exclude each
other and one of them always happens, so later proofs go by these rules and never back to the
actions themselves. -/
namespace ByteMachine

variable {size : Nat}

namespace Configuration

def pushFault? (c : Configuration size) : Option Fault :=
  if c.sp = 0 then some (.stackOverflow c.sp c.pc)
  else if c.sp.toNat - 1 < size then none
  else some (.addressOutOfRange (c.sp.toNat - 1))

def popFault? (c : Configuration size) : Option Fault :=
  if size ≤ c.sp.toNat then some (.addressOutOfRange c.sp.toNat)
  else if size ≤ c.sp.toNat + 1 ∨ c.sp = 0xFF then some (.stackUnderflow c.sp c.pc)
  else none

/-- The fault that an instruction meets after it is decoded. -/
def performFault? (c : Configuration size) : Instruction → Option Fault
  | .push _ => c.pushFault?
  | .call _ => if 0xFF < (c.pc + 2).toNat then some (.addressOutOfRange (c.pc + 2).toNat)
      else c.pushFault?
  | .pop _ | .ret => c.popFault?
  | _ => none

theorem toNat_pc_add_two (c : Configuration size) :
    (c.pc + 2).toNat = (c.pc.toNat + 2) % addressCount :=
  UInt16.toNat_add c.pc 2

theorem toNat_pc_add_two_of_lt {c : Configuration size} (fits : c.pc.toNat + 2 < addressCount) :
    (c.pc + 2).toNat = c.pc.toNat + 2 :=
  c.toNat_pc_add_two.trans (Nat.mod_eq_of_lt fits)

/-- A return address that is no byte has not wrapped around. -/
theorem toNat_pc_add_two_of_far {c : Configuration size} (far : 0xFF < (c.pc + 2).toNat) :
    (c.pc + 2).toNat = c.pc.toNat + 2 := by
  refine toNat_pc_add_two_of_lt (Nat.lt_of_not_le fun wraps => ?_)
  have bound : c.pc.toNat < addressCount := c.pc.toNat_lt
  rw [toNat_pc_add_two] at far
  unfold addressCount at bound far wraps
  omega

theorem back_eq (c : Configuration size) : c.back = UInt8.ofNat (c.pc.toNat + 2) := by
  apply UInt8.toNat_inj.mp
  rw [back, UInt16.toNat_toUInt8, toNat_pc_add_two, UInt8.toNat_ofNat']
  exact Nat.mod_mod_of_dvd _ (by decide)

/-- The fault of the next step, from fetching to the end of the instruction. -/
def fault? (c : Configuration size) : Option Fault :=
  if c.isHalted then none
  else match c.memory.instructionAt c.pc with
    | .error fault => some fault
    | .ok i => c.performFault? i

/-- The instruction that the next step performs. -/
def current? (c : Configuration size) : Option Instruction :=
  if c.isHalted then none else (c.memory.instructionAt c.pc).toOption

theorem pushFault?_eq_none {c : Configuration size} : c.pushFault? = none ↔ c.Pushable := by
  have empty : c.sp = 0 ↔ c.sp.toNat = 0 := UInt8.toNat_inj.symm
  simp only [pushFault?, Pushable, empty]
  split
  · simp only [reduceCtorEq, false_iff]
    omega
  · split
    · simp only [true_iff]
      omega
    · simp only [reduceCtorEq, false_iff]
      omega

theorem popFault?_eq_none {c : Configuration size} : c.popFault? = none ↔ c.Poppable := by
  have bound := c.sp.toNat_lt
  have full : c.sp = 0xFF ↔ c.sp.toNat = 0xFF := UInt8.toNat_inj.symm
  simp only [popFault?, Poppable, full]
  split
  · simp only [reduceCtorEq, false_iff]
    omega
  · split
    · simp only [reduceCtorEq, false_iff]
      omega
    · simp only [true_iff]
      omega

/-- The rules of the instructions that succeed. The flow is where the program counter goes on. -/
inductive Performs (c : Configuration size) : Instruction → Flow → Configuration size → Prop where
  | hlt : Performs c .hlt .next c.halt
  | ldi (target value) : Performs c (.ldi target value) .next (c.set target value)
  | prn (source) : Performs c (.prn source) .next (c.print (c.get source))
  | arithmetic (operation target source) :
      Performs c (.arithmetic operation target source) .next
        (c.set target (operation.apply (c.get target) (c.get source)))
  | push (source) (room : c.Pushable) :
      Performs c (.push source) .next (c.push (c.get source))
  | pop (target) (filled : c.Poppable) :
      Performs c (.pop target) .next (c.pop.set target c.top)
  | call (target) (near : (c.pc + 2).toNat ≤ 0xFF) (room : c.Pushable) :
      Performs c (.call target) (.jump ((c.push c.back).get target).toUInt16) (c.push c.back)
  | ret (filled : c.Poppable) : Performs c .ret (.jump c.top.toUInt16) c.pop
  | cmp (left right) :
      Performs c (.cmp left right) .next (c.setFlags (Flags.compare (c.get left) (c.get right)))
  | jmp (target) : Performs c (.jmp target) (.jump (c.get target).toUInt16) c
  | taken (condition target) (met : c.processor.flags.meets condition = true) :
      Performs c (.branch condition target) (.jump (c.get target).toUInt16) c
  | passed (condition target) (unmet : c.processor.flags.meets condition = false) :
      Performs c (.branch condition target) .next c

/-- A step that succeeds. A halted machine has nothing left to do. -/
inductive Steps (c : Configuration size) : Configuration size → Prop where
  | rests (halted : c.isHalted = true) : Steps c c
  | performs {i flow after} (current : c.current? = some i) (effect : Performs c i flow after) :
      Steps c (after.advance i.opcode flow)

theorem Performs.faultless {c after : Configuration size} {i : Instruction} {flow : Flow}
    (h : Performs c i flow after) : c.performFault? i = none := by
  cases h with
  | push source room => exact pushFault?_eq_none.mpr room
  | pop target filled => exact popFault?_eq_none.mpr filled
  | call target near room =>
    simp only [performFault?, if_neg (Nat.not_lt.mpr near)]
    exact pushFault?_eq_none.mpr room
  | ret filled => exact popFault?_eq_none.mpr filled
  | hlt | ldi | prn | arithmetic | cmp | jmp | taken | passed => rfl

theorem Performs.unique {c left right : Configuration size} {i : Instruction} {f g : Flow}
    (hl : Performs c i f left) (hr : Performs c i g right) : f = g ∧ left = right := by
  cases hl <;> cases hr <;> simp_all

theorem status_of_running {c : Configuration size} (running : c.isHalted = false) :
    c.processor.status = .running := by
  cases status : c.processor.status with
  | running => rfl
  | halted => simp [isHalted, Processor.isHalted, status] at running

theorem current?_eq_some {c : Configuration size} {i : Instruction} :
    c.current? = some i ↔ c.isHalted = false ∧ c.memory.instructionAt c.pc = .ok i := by
  unfold current?
  split
  · simp_all
  · cases c.memory.instructionAt c.pc <;> simp_all [Except.toOption]

theorem fault?_of_refused {c : Configuration size} {fault : Fault} (running : c.isHalted = false)
    (refused : c.memory.instructionAt c.pc = .error fault) : c.fault? = some fault := by
  simp only [fault?, running, refused, Bool.false_eq_true, if_false]

theorem fault?_of_current {c : Configuration size} {i : Instruction}
    (current : c.current? = some i) : c.fault? = c.performFault? i := by
  obtain ⟨running, instruction⟩ := current?_eq_some.mp current
  simp only [fault?, running, instruction, Bool.false_eq_true, if_false]

theorem Steps.faultless {c after : Configuration size} (h : Steps c after) :
    c.fault? = none := by
  cases h with
  | rests halted => simp only [fault?, if_pos halted]
  | performs current effect => exact (fault?_of_current current).trans effect.faultless

theorem Steps.unique {c left right : Configuration size} (hl : Steps c left)
    (hr : Steps c right) : left = right := by
  cases hl with
  | rests halted =>
    cases hr with
    | rests => rfl
    | performs current => simp [current?, halted] at current
  | performs current effect =>
    cases hr with
    | rests halted => simp [current?, halted] at current
    | performs current' effect' =>
      cases Option.some.inj (current.symm.trans current')
      obtain ⟨rfl, rfl⟩ := effect.unique effect'
      rfl

end Configuration

end ByteMachine
