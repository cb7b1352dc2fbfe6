import ByteMachine.Proofs.Machine.Transcript

/-! The verbose log of a run. Nothing in a step is shown at the debug level but the record of the
instruction, so the log of a run is its history, with what it printed. -/
namespace ByteMachine

open Text

variable {size : Nat}

namespace Record

theorem record?_events (record : Record) : record.events.filterMap Event.record? = [record] := by
  rw [events, List.filterMap_append]
  cases record.printed? <;> rfl

theorem value?_events (record : Record) :
    record.events.filterMap Event.value? = record.printed?.toList := by
  rw [events, List.filterMap_append]
  cases record.printed? <;> rfl

end Record

namespace Machine

/-- The records that are shown at the debug level, in the order in which they were logged. -/
def verboseLog (machine : Machine size) : List Record :=
  machine.records.filter (·.shownAt .debug)

theorem verboseLog_eq (machine : Machine size) :
    machine.verboseLog = machine.transcript.filterMap Event.record? := by
  rw [verboseLog, records, transcript, List.filter_filterMap, List.filterMap_filter]
  refine List.filterMap_congr fun event _ => ?_
  cases event <;> rfl

theorem printed_eq (machine : Machine size) :
    machine.printed = machine.transcript.filterMap Event.value? := by
  rw [printed, transcript, List.filterMap_filter]
  refine List.filterMap_congr fun event _ => ?_
  cases event with
  | printed value => rfl
  | logged record => exact (ite_self none).symm

theorem verboseLog_announce (machine : Machine size) (count : Nat) :
    (machine.announce count).verboseLog = machine.verboseLog ++ [announcement count] := by
  simp only [verboseLog_eq, announce, transcript_log, List.filterMap_append]
  rfl

end Machine

namespace Exec

variable {machine after : Machine size} {fault : Fault} {status : Status}

/-- A step that executes an instruction leaves the record of it. -/
theorem verboseLog_of_step (running : machine.isHalted = false)
    (succeeded : step machine = .ok status after) :
    ∃ i, machine.memory.instructionAt machine.processor.pc = .ok i ∧
      after.verboseLog = machine.verboseLog ++ [machine.configuration.account i] := by
  obtain ⟨i, instruction, told⟩ := transcript_of_step running succeeded
  refine ⟨i, instruction, ?_⟩
  rw [Machine.verboseLog_eq, told, List.filterMap_append, Record.record?_events,
    Machine.verboseLog_eq]

/-- A step that faults has made no record but for the trace level. -/
theorem verboseLog_of_fault (faulted : step machine = .error fault after) :
    after.verboseLog = machine.verboseLog := by
  rw [Machine.verboseLog_eq, transcript_of_fault faulted, Machine.verboseLog_eq]

end Exec

namespace Machine

open Exec

variable {machine : Machine size} {count : Nat}

/-- Step by step, the log grows by the records of the instructions that are executed. -/
theorem verboseLog_after (machine : Machine size) (count : Nat) :
    (machine.after count).verboseLog = machine.verboseLog ++ machine.accounts count := by
  have records : ((machine.accounts count).flatMap Record.events).filterMap Event.record? =
      machine.accounts count := by
    simp only [List.filterMap_flatMap, Record.record?_events, List.flatMap_singleton']
  rw [verboseLog_eq, transcript_after, List.filterMap_append, records, verboseLog_eq]

/-- What is printed in the meantime is what these records show. -/
theorem printed_after (machine : Machine size) (count : Nat) :
    (machine.after count).printed =
      machine.printed ++ (machine.accounts count).filterMap Record.printed? := by
  have values : ((machine.accounts count).flatMap Record.events).filterMap Event.value? =
      (machine.accounts count).filterMap Record.printed? := by
    rw [List.filterMap_flatMap, List.filterMap_eq_flatMap_toList]
    simp only [Record.value?_events]
  rw [printed_eq, transcript_after, List.filterMap_append, values, printed_eq]

/-- The verbose log records what is executed and nothing else. A step of a running machine that
succeeds adds one record, which begins with the program counter before the step and the name of the
instruction there; a step that faults, or that finds the machine halted, adds none. So the first
steps of a machine add the records of the instructions that they execute, and those of prints show
what was printed. A run that ends with a count adds as many records and then its announcement; one
that faults adds a record for each of the steps before and no announcement. -/
theorem verbose_log_tells_run (machine : Machine size) :
    (∀ status after, machine.isHalted = false → step machine = .ok status after →
      ∃ i, machine.memory.instructionAt machine.processor.pc = .ok i ∧
        after.verboseLog = machine.verboseLog ++ [⟨.debug, .processor, " ".intercalate
          ((upperHex 2 machine.processor.pc.toNat ++ ":") :: i.opcode.mnemonic ::
            machine.configuration.details i)⟩]) ∧
    (machine.isHalted = true → (step.leaves machine).verboseLog = machine.verboseLog) ∧
    (∀ fault after, step machine = .error fault after →
      after.verboseLog = machine.verboseLog) ∧
    (∀ count,
      (machine.after count).verboseLog = machine.verboseLog ++ machine.accounts count ∧
      (machine.after count).printed =
        machine.printed ++ (machine.accounts count).filterMap Record.printed? ∧
      ∀ record ∈ machine.accounts count, record.level = .debug) ∧
    (machine.isHalted = false → ∀ pace,
      (∀ total after, Answers pace machine total after →
        (machine.accounts total).length = total ∧
        after.verboseLog =
          machine.verboseLog ++ machine.accounts total ++ [announcement total] ∧
        after.printed =
          machine.printed ++ (machine.accounts total).filterMap Record.printed?) ∧
      ∀ fault after, Fails pace machine fault after →
        ∃ steps, machine.StaysRunning steps ∧ step (machine.after steps) = .error fault after ∧
          (machine.accounts steps).length = steps ∧
          after.verboseLog = machine.verboseLog ++ machine.accounts steps ∧
          after.printed =
            machine.printed ++ (machine.accounts steps).filterMap Record.printed?) := by
  refine ⟨fun _ _ => verboseLog_of_step, ?_, fun _ _ => verboseLog_of_fault, ?_, ?_⟩
  · intro halted
    rw [leaves, step_of_halted halted]
  · intro count
    exact ⟨verboseLog_after machine count, printed_after machine count,
      fun _ => level_of_mem_accounts⟩
  · intro running pace
    constructor
    · intro total after answered
      obtain ⟨halts, rfl⟩ := (answers_iff running).mp answered
      refine ⟨halts.length_accounts, ?_, ?_⟩
      · rw [verboseLog_announce, verboseLog_after]
      · rw [← printed_after]
        exact congrArg Configuration.printed (configuration_announce _ total)
    · intro fault after failed
      obtain ⟨steps, stays, faulted⟩ := (fails_iff running).mp failed
      refine ⟨steps, stays, faulted, stays.length_accounts, ?_, ?_⟩
      · rw [verboseLog_of_fault faulted, verboseLog_after]
      · rw [← printed_after]
        exact congrArg Configuration.printed (fault_of_step faulted).2

/-- A program that loads 42 into a register, prints it and halts. -/
theorem verbose_log_of_load_print_and_halt :
    let machine : Machine 6 := .start (Memory.zeros.overwrite 0 #[0x99, 0, 42, 0x43, 0, 1])
    ∃ after, Answers .free machine 3 after ∧ after.printed = [42] ∧
      after.verboseLog = [⟨.debug, .processor, "00: LDI R0 42"⟩,
        ⟨.debug, .processor, "03: PRN R0: 42"⟩, ⟨.debug, .processor, "05: HLT"⟩,
        announcement 3] := by
  intro machine
  have running : machine.isHalted = false := rfl
  have halts : machine.HaltsAfter 3 :=
    ⟨by decide +kernel, by decide +kernel, by decide +kernel⟩
  have answered : Answers .free machine 3 _ := (answers_iff running).mpr ⟨halts, rfl⟩
  have accounts : machine.accounts 3 = [⟨.debug, .processor, "00: LDI R0 42"⟩,
      ⟨.debug, .processor, "03: PRN R0: 42"⟩, ⟨.debug, .processor, "05: HLT"⟩] := by
    decide +kernel
  obtain ⟨_, _, _, _, runs⟩ := verbose_log_tells_run machine
  obtain ⟨_, log, printed⟩ := (runs running .free).1 3 _ answered
  rw [accounts] at log printed
  refine ⟨_, answered, printed.trans ?_, log⟩
  decide +kernel

end Machine

end ByteMachine
