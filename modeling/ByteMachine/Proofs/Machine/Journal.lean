import ByteMachine.Proofs.Machine.Trail

/-! What the actions of the processor add to the journal. Nothing is ever taken out of it, whether
an action succeeds or faults, and a step adds printed values and records of the processor below the
info level only. -/
namespace ByteMachine

variable {size : Nat}

namespace Event

/-- The event is no info record. -/
def Minor (event : Event) : Prop := ∀ record, event.record? = some record → record.level ≠ .info

/-- An event of a step: a printed value, or an account of the processor for those who ask for
it. -/
def OfStep : Event → Prop
  | printed _ => True
  | logged record => record.origin = .processor ∧ (record.level = .debug ∨ record.level = .trace)

theorem OfStep.level {record : Record} (h : (logged record).OfStep) :
    record.level ≠ .info ∧ record.level ≠ .error := by
  rcases h.2 with level | level <;> simp [level]

theorem OfStep.minor {event : Event} (h : event.OfStep) : event.Minor := by
  rintro record logs
  cases event with
  | printed value => contradiction
  | logged entry =>
    cases logs
    exact h.level.1

end Event

namespace Machine

/-- The records of the info level, in the order in which they were logged. -/
def infoRecords (machine : Machine size) : List Record :=
  machine.records.filter (·.level == .info)

end Machine

namespace Exec

variable {α β : Type} {kind : Event → Prop}

/-- An action that only adds to the journal, and only events of a kind. -/
def Adds (kind : Event → Prop) (action : Exec size α) : Prop :=
  ∀ machine, ∃ events, (action.leaves machine).journal.toList = machine.journal.toList ++ events ∧
    ∀ event ∈ events, kind event

namespace Adds

variable {action : Exec size α} {next : α → Exec size β}

theorem of_same (same : ∀ machine, (action.leaves machine).journal = machine.journal) :
    Adds kind action := by
  intro machine
  refine ⟨[], ?_, fun _ member => nomatch member⟩
  rw [same, List.append_nil]

theorem pure (value : α) : Adds kind (Pure.pure value : Exec size α) :=
  of_same fun _ => rfl

theorem throw (fault : Fault) : Adds kind (MonadExcept.throw fault : Exec size α) :=
  of_same fun _ => rfl

theorem note {event : Event} (h : kind event) : Adds kind (note event : Exec size Unit) := by
  intro machine
  refine ⟨[event], Array.toList_push, ?_⟩
  intro other member
  rw [List.mem_singleton.mp member]
  exact h

theorem bind (first : Adds kind action) (rest : ∀ value, Adds kind (next value)) :
    Adds kind (action >>= next) := by
  intro machine
  obtain ⟨events, added, kinds⟩ := first machine
  simp only [leaves, bind_apply] at added ⊢
  cases ended : action machine with
  | error fault after =>
    rw [ended] at added
    exact ⟨events, added, kinds⟩
  | ok value after =>
    obtain ⟨events', added', kinds'⟩ := rest value after
    rw [ended] at added
    refine ⟨events ++ events', ?_, ?_⟩
    · rw [← List.append_assoc, ← added]
      exact added'
    · intro event member
      rcases List.mem_append.mp member with earlier | later
      · exact kinds event earlier
      · exact kinds' event later

theorem mono {wider : Event → Prop} (adds : Adds kind action)
    (imp : ∀ event, kind event → wider event) : Adds wider action := by
  intro machine
  obtain ⟨events, added, kinds⟩ := adds machine
  exact ⟨events, added, fun event member => imp event (kinds event member)⟩

theorem ite {condition : Prop} [Decidable condition] {left right : Exec size α}
    (hl : Adds kind left) (hr : Adds kind right) :
    Adds kind (if condition then left else right) := by
  split
  · exact hl
  · exact hr

end Adds

/-! The actions one by one. Whatever reads or changes the configuration alone adds nothing. -/

theorem adds_processor : Adds kind (processor : Exec size Processor) := .of_same fun _ => rfl

theorem adds_changeProcessor (change : Processor → Processor) :
    Adds kind (changeProcessor change : Exec size Unit) := .of_same fun _ => rfl

theorem adds_readRegister (register : Register) :
    Adds kind (readRegister register : Exec size Byte) := .of_same fun _ => rfl

theorem adds_load (address : Nat) : Adds kind (load address : Exec size Byte) := by
  refine .of_same fun machine => ?_
  rw [leaves, load_apply]
  cases machine.memory.get? address <;> rfl

theorem adds_store (address : Nat) (value : Byte) :
    Adds kind (store address value : Exec size Unit) := by
  refine .of_same fun machine => ?_
  rw [leaves, store_apply]
  by_cases inside : address < size
  · rw [if_pos inside]
  · rw [if_neg inside]

theorem adds_push (value : Byte) : Adds kind (push value : Exec size Unit) :=
  adds_processor.bind fun _ =>
    .ite (.throw _) ((adds_store _ _).bind fun _ => adds_changeProcessor _)

theorem adds_pop : Adds kind (pop : Exec size Byte) :=
  adds_processor.bind fun _ =>
    .ite (.throw _) <| .ite (.throw _) <|
      (adds_load _).bind fun _ => (adds_changeProcessor _).bind fun _ => .pure _

/-- An instruction itself logs nothing; the record of it is made when it has succeeded. -/
theorem adds_perform (printed : ∀ value, kind (.printed value)) (i : Instruction) :
    Adds kind (perform i : Exec size (Flow × String)) := by
  cases i with
  | hlt => exact (adds_changeProcessor _).bind fun _ => .pure _
  | ldi target value => exact (adds_changeProcessor _).bind fun _ => .pure _
  | prn source =>
    exact (adds_readRegister _).bind fun value => (Adds.note (printed value)).bind fun _ => .pure _
  | arithmetic operation target source =>
    exact (adds_readRegister _).bind fun _ => (adds_readRegister _).bind fun _ =>
      (adds_changeProcessor _).bind fun _ => .pure _
  | push source =>
    exact (adds_readRegister _).bind fun _ => (adds_push _).bind fun _ => .pure _
  | pop target => exact adds_pop.bind fun _ => (adds_changeProcessor _).bind fun _ => .pure _
  | call target =>
    exact adds_processor.bind fun _ =>
      .ite (.throw _) <| (adds_push _).bind fun _ => (adds_readRegister _).bind fun _ => .pure _
  | ret => exact adds_pop.bind fun _ => .pure _
  | cmp left right =>
    exact (adds_readRegister _).bind fun _ => (adds_readRegister _).bind fun _ =>
      (adds_changeProcessor _).bind fun _ => .pure _
  | jmp target => exact (adds_readRegister _).bind fun _ => .pure _
  | branch condition target =>
    exact (adds_readRegister _).bind fun _ => adds_processor.bind fun _ => .pure _

theorem adds_fetchOpcode : Adds kind (fetchOpcode : Exec size Opcode) := by
  refine .of_same fun machine => ?_
  rw [leaves, fetchOpcode_apply]
  cases machine.memory.opcodeAt machine.processor.pc <;> rfl

theorem adds_fetchOperand (opcode : Opcode) (position : Nat) :
    Adds kind (fetchOperand opcode position : Exec size Byte) := by
  refine .of_same fun machine => ?_
  cases taken : machine.memory.operand opcode machine.processor.pc position with
  | ok value =>
    obtain ⟨fetched, ended, _⟩ := Exec.fetchOperand_of_ok taken
    rw [leaves, ended]
  | error fault => rw [leaves, fetchOperand_of_error taken]

theorem adds_execute (opcode : Opcode) (a b : Byte) :
    Adds Event.OfStep (execute opcode a b : Exec size Flow) := by
  refine adds_processor.bind fun processor => ?_
  cases decoded : Instruction.decode opcode a b with
  | error index => exact .throw _
  | ok i =>
    refine (adds_perform (fun _ => trivial) i).bind fun (flow, account) => ?_
    exact (Adds.note ⟨rfl, .inl rfl⟩).bind fun _ => .pure _

theorem adds_step : Adds Event.OfStep (step : Exec size Status) := by
  refine adds_processor.bind fun before => .ite (.pure _) ?_
  refine adds_fetchOpcode.bind fun opcode => ?_
  refine (adds_fetchOperand opcode 1).bind fun a => ?_
  refine (adds_fetchOperand opcode 2).bind fun b => ?_
  refine (Adds.note ⟨rfl, .inr rfl⟩).bind fun _ => ?_
  refine (adds_execute opcode a b).bind fun flow => ?_
  exact (adds_changeProcessor _).bind fun _ => adds_processor.bind fun _ => .pure _

theorem Adds.infoRecords {action : Exec size α} (adds : Adds Event.Minor action)
    (machine : Machine size) : (action.leaves machine).infoRecords = machine.infoRecords := by
  obtain ⟨events, added, minor⟩ := adds machine
  have none : (events.filterMap Event.record?).filter (·.level == .info) = [] := by
    rw [List.filter_eq_nil_iff]
    intro record member
    obtain ⟨event, listed, logged⟩ := List.mem_filterMap.mp member
    simpa using minor event listed record logged
  simp only [Machine.infoRecords, Machine.records, added, List.filterMap_append, List.filter_append,
    none, List.append_nil]

end Exec

namespace Machine

open Exec

/-- Steps announce nothing, however many they are and whether they fault. -/
theorem after_infoRecords (machine : Machine size) (count : Nat) :
    (machine.after count).infoRecords = machine.infoRecords := by
  induction count with
  | zero => rfl
  | succ count ih => exact ((adds_step.mono fun _ => Event.OfStep.minor).infoRecords _).trans ih

theorem after_journal (machine : Machine size) (count : Nat) :
    ∃ events, (machine.after count).journal.toList = machine.journal.toList ++ events ∧
      ∀ event ∈ events, event.OfStep := by
  induction count with
  | zero => exact ⟨[], (List.append_nil _).symm, List.forall_mem_nil _⟩
  | succ count ih =>
    obtain ⟨events, added, kinds⟩ := ih
    obtain ⟨events', added', kinds'⟩ := adds_step (machine.after count)
    refine ⟨events ++ events', ?_, List.forall_mem_append.mpr ⟨kinds, kinds'⟩⟩
    rw [← List.append_assoc, ← added]
    exact added'

end Machine

end ByteMachine
