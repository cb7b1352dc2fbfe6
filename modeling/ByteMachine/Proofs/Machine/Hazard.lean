import ByteMachine.Proofs.Machine.Step

/-! Why a step faults, read off the bytes at the program counter and the stack pointer. The
conditions below are tried in a fixed order, that of fetching, decoding and performing, and the
first one that holds decides the fault; a step that meets none of them succeeds. -/
namespace ByteMachine

variable {size : Nat}

namespace Configuration

/-- The byte that lies the given distance past the program counter, or zero where there is none. -/
def ahead (c : Configuration size) (distance : Nat) : Byte :=
  (c.memory.get? (c.pc.toNat + distance)).getD 0

def opcode? (c : Configuration size) : Option Opcode := Opcode.ofByte? (c.ahead 0)

end Configuration

inductive Hazard where
  | opcodeOutside
  | unknownOpcode
  /-- An operand lies behind the end of the memory or behind the last address. -/
  | operandsOutside
  | firstRegister
  | secondRegister
  /-- The address after a call does not fit into a byte. -/
  | returnTooFar
  | noCellBelow
  | cellBelowOutside
  | topOutside
  /-- A pop has nowhere to move the stack pointer to. -/
  | noCellAbove
  deriving DecidableEq, Repr

namespace Hazard

def all : List Hazard :=
  [opcodeOutside, unknownOpcode, operandsOutside, firstRegister, secondRegister, returnTooFar,
    noCellBelow, cellBelowOutside, topOutside, noCellAbove]

/-- The condition of a hazard. One that presumes an opcode is only asked for when the hazards
before it do not hold. -/
def holds (c : Configuration size) : Hazard → Bool
  | opcodeOutside => size ≤ c.pc.toNat
  | unknownOpcode => c.opcode? = none
  | operandsOutside => Memory.reach size ≤ c.pc.toNat + operandCount (c.ahead 0)
  | firstRegister => c.opcode? ∉ [some .hlt, some .ret] ∧ 7 < c.ahead 1
  | secondRegister => c.opcode? ∈ [some .add, some .mul, some .cmp] ∧ 7 < c.ahead 2
  | returnTooFar => c.opcode? = some .call ∧ 255 < (c.pc + 2).toNat
  | noCellBelow => c.opcode? ∈ [some .push, some .call] ∧ c.sp = 0
  | cellBelowOutside => c.opcode? ∈ [some .push, some .call] ∧ size ≤ c.sp.toNat - 1
  | topOutside => c.opcode? ∈ [some .pop, some .ret] ∧ size ≤ c.sp.toNat
  | noCellAbove => c.opcode? ∈ [some .pop, some .ret] ∧ (c.sp = 255 ∨ size ≤ c.sp.toNat + 1)

def fault (c : Configuration size) : Hazard → Fault
  | opcodeOutside => .addressOutOfRange c.pc.toNat
  | unknownOpcode => .invalidOpcode (c.ahead 0) c.pc
  | operandsOutside => .addressOutOfRange (Memory.reach size)
  | firstRegister => .invalidRegister (c.ahead 1) c.pc
  | secondRegister => .invalidRegister (c.ahead 2) c.pc
  | returnTooFar => .addressOutOfRange (c.pc.toNat + 2)
  | noCellBelow => .stackOverflow 0 c.pc
  | cellBelowOutside => .addressOutOfRange (c.sp.toNat - 1)
  | topOutside => .addressOutOfRange c.sp.toNat
  | noCellAbove => .stackUnderflow c.sp c.pc

/-- The fault of the first hazard in a list that holds. -/
def firstFault? (c : Configuration size) (hazards : List Hazard) : Option Fault :=
  (hazards.find? (holds c)).map (fault c)

/-! The three phases of a step meet the hazards one after another. -/

def fetching : List Hazard := [opcodeOutside, unknownOpcode, operandsOutside]

def decoding : List Hazard := [firstRegister, secondRegister]

def performing : List Hazard :=
  [returnTooFar, noCellBelow, cellBelowOutside, topOutside, noCellAbove]

theorem firstFault?_append (c : Configuration size) (earlier later : List Hazard) :
    firstFault? c (earlier ++ later) = (firstFault? c earlier).or (firstFault? c later) := by
  rw [firstFault?, List.find?_append, Option.map_or]
  rfl

theorem firstFault?_all (c : Configuration size) :
    firstFault? c all =
      (firstFault? c fetching).or ((firstFault? c decoding).or (firstFault? c performing)) := by
  rw [← firstFault?_append, ← firstFault?_append]
  rfl

theorem firstFault?_cons (c : Configuration size) (hazard : Hazard) (later : List Hazard) :
    firstFault? c (hazard :: later) =
      if holds c hazard then some (fault c hazard) else firstFault? c later := by
  unfold firstFault?
  rw [List.find?_cons]
  cases holds c hazard <;> rfl

section Phases

variable {c : Configuration size} {opcode : Opcode}

theorem operand_of_ends {position : Nat} (taken : position ≤ opcode.operandCount)
    (ends : c.pc.toNat + position = Memory.reach size) :
    c.memory.operand opcode c.pc position = .error (.addressOutOfRange (Memory.reach size)) := by
  rw [Memory.operand, if_pos taken, Memory.fetch_eq_error]
  exact ⟨Nat.le_of_eq ends.symm, congrArg _ ends.symm⟩

theorem operand_of_inside (c : Configuration size) (opcode : Opcode) (position : Nat)
    (inside : position ≤ opcode.operandCount → c.pc.toNat + position < Memory.reach size) :
    ∃ value, c.memory.operand opcode c.pc position = .ok value ∧
      (position ≤ opcode.operandCount → value = c.ahead position) := by
  by_cases taken : position ≤ opcode.operandCount
  · obtain ⟨fits, addressable⟩ := Nat.lt_min.mp (inside taken)
    obtain ⟨value, stored⟩ := c.memory.get?_of_lt fits
    refine ⟨value, ?_, fun _ => ?_⟩
    · rw [Memory.operand, if_pos taken, Memory.fetch_eq_ok]
      exact ⟨addressable, stored⟩
    · simp only [Configuration.ahead, stored, Option.getD_some]
  · exact ⟨0, if_neg taken, fun h => absurd h taken⟩

/-- Operand bytes lie one behind the other, so the first one missing is where the memory ends. -/
theorem operands_of_outside (inside : c.pc.toNat < size)
    (outside : Memory.reach size ≤ c.pc.toNat + opcode.operandCount) :
    c.memory.operand opcode c.pc 1 = .error (.addressOutOfRange (Memory.reach size)) ∨
      ∃ a, c.memory.operand opcode c.pc 1 = .ok a ∧
        c.memory.operand opcode c.pc 2 = .error (.addressOutOfRange (Memory.reach size)) := by
  have few : opcode.operandCount ≤ 2 := by cases opcode <;> decide
  have begins : c.pc.toNat < Memory.reach size := Nat.lt_min.mpr ⟨inside, c.pc.toNat_lt⟩
  by_cases ends : c.pc.toNat + 1 = Memory.reach size
  · exact .inl (operand_of_ends (by omega) ends)
  · obtain ⟨a, first, _⟩ := operand_of_inside c opcode 1 fun _ => by omega
    exact .inr ⟨a, first, operand_of_ends (by omega) (by omega)⟩

/-- Fetching meets its first hazard, or finds the opcode with the operand bytes that it takes. -/
theorem fetch_outcome (c : Configuration size) :
    (∃ met, firstFault? c fetching = some met ∧ c.memory.encodingAt c.pc = .error met) ∨
    (firstFault? c fetching = none ∧ ∃ opcode a b, c.opcode? = some opcode ∧
      c.memory.encodingAt c.pc = .ok (opcode, a, b) ∧
      Instruction.decode opcode a b = Instruction.decode opcode (c.ahead 1) (c.ahead 2)) := by
  simp only [fetching, firstFault?_cons]
  by_cases outside : size ≤ c.pc.toNat
  · left
    refine ⟨_, if_pos (decide_eq_true outside), Memory.encodingAt_eq_error.mpr (.inl ?_)⟩
    exact Memory.opcodeAt_eq_error.mpr (.inl ⟨Memory.get?_eq_none_iff.mpr outside, rfl⟩)
  · obtain ⟨byte, stored⟩ := c.memory.get?_of_lt (Nat.lt_of_not_le outside)
    have same : c.ahead 0 = byte := by
      simp only [Configuration.ahead, Nat.add_zero, stored, Option.getD_some]
    have named : c.opcode? = Opcode.ofByte? byte := congrArg Opcode.ofByte? same
    rw [if_neg (by simpa [holds] using outside)]
    cases known : c.opcode? with
    | none =>
      left
      refine ⟨_, if_pos (decide_eq_true known), Memory.encodingAt_eq_error.mpr (.inl ?_)⟩
      refine Memory.opcodeAt_eq_error.mpr (.inr ⟨byte, stored, named.symm.trans known, ?_⟩)
      rw [← same]
      rfl
    | some opcode =>
      have found : c.memory.opcodeAt c.pc = .ok opcode :=
        Memory.opcodeAt_eq_ok.mpr ⟨byte, stored, named.symm.trans known⟩
      have length : operandCount (c.ahead 0) = opcode.operandCount :=
        congrArg operandCount (Opcode.byte_of_ofByte? known).symm
      rw [if_neg (by simp [holds, known])]
      by_cases missing : Memory.reach size ≤ c.pc.toNat + opcode.operandCount
      · left
        refine ⟨_, if_pos (by simpa [holds, length] using missing), ?_⟩
        refine Memory.encodingAt_eq_error.mpr (.inr ⟨opcode, found, ?_⟩)
        exact operands_of_outside (Nat.lt_of_not_le outside) missing
      · right
        obtain ⟨a, first, sameA⟩ := operand_of_inside c opcode 1 fun _ => by omega
        obtain ⟨b, second, sameB⟩ := operand_of_inside c opcode 2 fun _ => by omega
        refine ⟨if_neg (by simpa [holds, length] using missing), opcode, a, b, rfl, ?_,
          Instruction.decode_congr opcode sameA sameB⟩
        exact Memory.encodingAt_eq_ok.mpr ⟨found, first, second⟩

theorem register_of_low {operand : Byte} (low : ¬ 7 < operand) :
    ∃ register, Instruction.register operand = .ok register := by
  have bound : operand.toNat < 8 :=
    Nat.lt_of_not_le fun high => low (UInt8.lt_iff_toNat_lt.mpr high)
  refine ⟨⟨operand.toNat, bound⟩, ?_⟩
  simp only [Instruction.register, Register.ofByte?, dif_pos bound]

theorem register_of_high {operand : Byte} (high : 7 < operand) :
    Instruction.register operand = .error operand := by
  have bound : ¬ operand.toNat < 8 := Nat.not_lt.mpr (UInt8.lt_iff_toNat_lt.mp high)
  simp only [Instruction.register, Register.ofByte?, dif_neg bound]

/-- Decoding meets its first hazard, or finds an instruction. -/
theorem decode_outcome (known : c.opcode? = some opcode) :
    (∃ index, firstFault? c decoding = some (.invalidRegister index c.pc) ∧
      Instruction.decode opcode (c.ahead 1) (c.ahead 2) = .error index) ∨
    (firstFault? c decoding = none ∧
      ∃ i, Instruction.decode opcode (c.ahead 1) (c.ahead 2) = .ok i) := by
  simp only [decoding, firstFault?_cons]
  cases opcode with
  | hlt | ret => exact .inr ⟨by simp [holds, known, firstFault?], _, rfl⟩
  | ldi | prn | pop | push | call | jmp | jeq | jne =>
    by_cases high : 7 < c.ahead 1
    · refine .inl ⟨c.ahead 1, by simp [holds, fault, known, high], ?_⟩
      simp only [Instruction.decode, register_of_high high]
      rfl
    · obtain ⟨register, first⟩ := register_of_low high
      refine .inr ⟨by simp [holds, known, high, firstFault?], ?_⟩
      simp only [Instruction.decode, first]
      exact ⟨_, rfl⟩
  | mul | add | cmp =>
    by_cases high : 7 < c.ahead 1
    · refine .inl ⟨c.ahead 1, by simp [holds, fault, known, high], ?_⟩
      simp only [Instruction.decode, register_of_high high]
      rfl
    · obtain ⟨left, first⟩ := register_of_low high
      by_cases high' : 7 < c.ahead 2
      · refine .inl ⟨c.ahead 2, by simp [holds, fault, known, high, high'], ?_⟩
        simp only [Instruction.decode, first, register_of_high high']
        rfl
      · obtain ⟨right, second⟩ := register_of_low high'
        refine .inr ⟨by simp [holds, known, high, high', firstFault?], ?_⟩
        simp only [Instruction.decode, first, second]
        exact ⟨_, rfl⟩

theorem firstFault?_push (pushes : opcode = .push ∨ opcode = .call)
    (known : c.opcode? = some opcode) :
    firstFault? c [noCellBelow, cellBelowOutside, topOutside, noCellAbove] = c.pushFault? := by
  have pushing : c.opcode? ∈ [some .push, some .call] := by
    rcases pushes with rfl | rfl <;> simp [known]
  have popping : c.opcode? ∉ [some .pop, some .ret] := by
    rcases pushes with rfl | rfl <;> simp [known]
  simp only [firstFault?_cons, holds, pushing, popping, true_and, false_and, decide_false]
  unfold Configuration.pushFault?
  by_cases empty : c.sp = 0
  · simp [empty, fault]
  · by_cases inside : c.sp.toNat - 1 < size
    · simp [empty, inside, firstFault?]
    · simp [empty, inside, fault, Nat.le_of_not_lt inside]

theorem firstFault?_pop (pops : opcode = .pop ∨ opcode = .ret)
    (known : c.opcode? = some opcode) :
    firstFault? c [noCellBelow, cellBelowOutside, topOutside, noCellAbove] = c.popFault? := by
  have pushing : c.opcode? ∉ [some .push, some .call] := by
    rcases pops with rfl | rfl <;> simp [known]
  have popping : c.opcode? ∈ [some .pop, some .ret] := by
    rcases pops with rfl | rfl <;> simp [known]
  simp only [firstFault?_cons, holds, pushing, popping, true_and, false_and, decide_false]
  unfold Configuration.popFault?
  by_cases outside : size ≤ c.sp.toNat
  · simp [outside, fault]
  · by_cases last : c.sp = 255 ∨ size ≤ c.sp.toNat + 1
    · simp [outside, fault, last, last.symm]
    · simp [outside, last, mt Or.symm last, firstFault?]

theorem firstFault?_performing {i : Instruction} (known : c.opcode? = some i.opcode) :
    firstFault? c performing = c.performFault? i := by
  rw [performing, firstFault?_cons]
  cases i with
  | push source =>
    rw [if_neg (by simp [holds, known, Instruction.opcode])]
    exact firstFault?_push (.inl rfl) known
  | call target =>
    by_cases far : 255 < (c.pc + 2).toNat
    · have reached : holds c returnTooFar = true := decide_eq_true ⟨known, far⟩
      have straight := Configuration.toNat_pc_add_two_of_far far
      refine (if_pos reached).trans ?_
      rw [fault, ← straight]
      exact (if_pos far).symm
    · rw [if_neg (by simpa [holds] using fun _ => Nat.le_of_not_lt far)]
      exact (firstFault?_push (.inr rfl) known).trans (if_neg far).symm
  | pop target =>
    rw [if_neg (by simp [holds, known, Instruction.opcode])]
    exact firstFault?_pop (.inl rfl) known
  | ret =>
    rw [if_neg (by simp [holds, known, Instruction.opcode])]
    exact firstFault?_pop (.inr rfl) known
  | hlt | ldi | prn | cmp | jmp =>
    simp [firstFault?, holds, known, Instruction.opcode, Configuration.performFault?]
  | arithmetic operation =>
    cases operation <;>
      simp [firstFault?, holds, known, Instruction.opcode, Arithmetic.opcode,
        Configuration.performFault?]
  | branch condition =>
    cases condition <;>
      simp [firstFault?, holds, known, Instruction.opcode, Configuration.performFault?]

/-- A running machine meets the hazards phase by phase, so the first of all is its fault. -/
theorem fault?_eq_firstFault? (running : c.isHalted = false) : c.fault? = firstFault? c all := by
  rw [firstFault?_all]
  rcases fetch_outcome c with ⟨met, first, unfetched⟩ | ⟨free, opcode, a, b, known, encoded, same⟩
  · rw [first, Option.some_or]
    have refused := Memory.instructionAt_eq_error.mpr (.inl unfetched)
    exact Configuration.fault?_of_refused running refused
  · rw [free, Option.none_or]
    rcases decode_outcome known with ⟨index, first, undecoded⟩ | ⟨free', i, decoded⟩
    · rw [first, Option.some_or]
      refine Configuration.fault?_of_refused running (Memory.instructionAt_eq_error.mpr (.inr ?_))
      exact ⟨opcode, a, b, encoded, index, same.trans undecoded, rfl⟩
    · rw [free', Option.none_or]
      have current : c.current? = some i :=
        Configuration.current?_eq_some.mpr ⟨running,
          Memory.instructionAt_eq_ok.mpr ⟨opcode, a, b, encoded, same.trans decoded⟩⟩
      rw [Configuration.fault?_of_current current]
      refine (firstFault?_performing ?_).symm
      rw [Instruction.opcode_of_decode decoded]
      exact known

theorem fault?_eq_some_iff {met : Fault} :
    c.fault? = some met ↔ c.isHalted = false ∧ firstFault? c all = some met := by
  cases halted : c.isHalted with
  | true => simp [Configuration.fault?, halted]
  | false => simp [fault?_eq_firstFault? halted]

theorem fault?_eq_none_iff :
    c.fault? = none ↔ c.isHalted = true ∨ ∀ hazard ∈ all, hazard.holds c = false := by
  cases halted : c.isHalted with
  | true => simp [Configuration.fault?, halted]
  | false => simp [fault?_eq_firstFault? halted, firstFault?]

end Phases

end Hazard

namespace Exec

open Hazard

/-- A step faults exactly if the machine runs and some hazard holds, and its fault is that of the
first hazard that does. In every other case it succeeds and answers the status that it leaves. -/
theorem step_faults_by_first_hazard (machine : Machine size) :
    (∀ met, (∃ after, step machine = .error met after) ↔
      machine.isHalted = false ∧ ∃ hazard, all.find? (holds machine.configuration) = some hazard ∧
        hazard.fault machine.configuration = met) ∧
    ((∃ after, step machine = .ok after.processor.status after) ↔
      machine.isHalted = true ∨ ∀ hazard ∈ all, hazard.holds machine.configuration = false) := by
  constructor
  · intro met
    have decided : machine.configuration.fault? = some met ↔ machine.isHalted = false ∧
        ∃ hazard, all.find? (holds machine.configuration) = some hazard ∧
          hazard.fault machine.configuration = met := by
      rw [fault?_eq_some_iff, firstFault?, Option.map_eq_some_iff]
      rfl
    rw [← decided]
    constructor
    · rintro ⟨after, faulted⟩
      exact (fault_of_step faulted).1
    · intro meets
      obtain ⟨after, faulted, _⟩ := step_of_fault meets
      exact ⟨after, faulted⟩
  · refine Iff.trans ?_ (fault?_eq_none_iff (c := machine.configuration))
    constructor
    · rintro ⟨after, succeeded⟩
      exact (steps_of_step succeeded).1.faultless
    · intro faultless
      obtain ⟨met, _, meets, _, _⟩ | ⟨after, succeeded, _⟩ := step_outcome machine
      · cases faultless.symm.trans meets
      · exact ⟨after, succeeded⟩

end Exec

end ByteMachine
