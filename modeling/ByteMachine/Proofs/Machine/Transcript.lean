import ByteMachine.Proofs.Machine.Alike
import ByteMachine.Proofs.Machine.Atomicity
import ByteMachine.Proofs.Machine.Table
import ByteMachine.Proofs.Source.Listing
import ByteMachine.Proofs.Text.Numeral

/-! What a run leaves in the journal, records and printed values together. An instruction leaves one
record when it has succeeded, which tells what it did from the configuration before it, and the
value that it prints stands right in front of that. A step leaves nothing else but its trace record,
so the records of a run tell the whole of what the run adds, in its order. -/
namespace ByteMachine

open Text Exec

variable {size : Nat}

/-- Events without a record are the values that they print. -/
theorem Event.map_printed {events : List Event} (silent : ∀ event ∈ events, event.record? = none) :
    (events.filterMap Event.value?).map .printed = events := by
  induction events with
  | nil => rfl
  | cons event events ih =>
    obtain ⟨first, rest⟩ := List.forall_mem_cons.mp silent
    cases event with
    | printed value => exact congrArg (Event.printed value :: ·) (ih rest)
    | logged record => cases first

namespace Record

/-- The opcode that a record of the processor names behind the program counter. -/
def opcode? (record : Record) : Option Opcode :=
  match words record.text.toList with
  | _ :: name :: _ => Opcode.ofName? name
  | _ => none

/-- The value that the record of a print shows at its end. -/
def printed? (record : Record) : Option Byte :=
  if record.opcode? = some .prn then
    (words record.text.toList).getLast?.bind fun word =>
      (Number.readDigits 10 0xFF 0 word).toOption.map UInt8.ofNat
  else none

/-- What an instruction with this record adds to the journal: the value that it prints, if it prints
one, and then the record. -/
def events (record : Record) : List Event :=
  record.printed?.toList.map .printed ++ [.logged record]

end Record

namespace Configuration

/-- A register as records name it. -/
def registerName (register : Register) : String := "R" ++ toString register.val

/-- What the record of an instruction tells behind its name: the operands and the outcome. -/
def details (c : Configuration size) : Instruction → List String
  | .hlt => []
  | .ldi target value => [registerName target, toString value.toNat]
  | .prn source => [registerName source ++ ":", toString (c.get source).toNat]
  | .arithmetic operation target source =>
    [registerName target, registerName source ++ ":",
      toString (operation.apply (c.get target) (c.get source)).toNat]
  | .push source => [registerName source ++ ":", toString (c.get source).toNat]
  | .pop target => [registerName target ++ ":", toString c.top.toNat]
  | .call target =>
    [registerName target ++ ":", Exec.location ((c.push c.back).get target), "(return", "to",
      Exec.location c.back ++ ")"]
  | .ret => [Exec.location c.top]
  | .cmp left right =>
    [registerName left, registerName right ++ ":", (Flags.compare (c.get left) (c.get right)).text]
  | .jmp target => [registerName target ++ ":", Exec.location (c.get target)]
  | .branch condition target =>
    [registerName target ++ ":", Exec.location (c.get target), "(taken:",
      toString (c.processor.flags.meets condition) ++ ")"]

/-- The record of an instruction that is executed in a configuration. -/
def account (c : Configuration size) (i : Instruction) : Record :=
  ⟨.debug, .processor, " ".intercalate
    ((upperHex 2 c.pc.toNat ++ ":") :: i.opcode.mnemonic :: c.details i)⟩

variable {c : Configuration size}

/-! What the words of a record tell. -/

theorem words_account (c : Configuration size) (i : Instruction) :
    words (c.account i).text.toList =
      ((upperHex 2 c.pc.toNat).toList ++ [':']) :: i.opcode.mnemonic.toList ::
        words ([' '].intercalate ((c.details i).map String.toList)) := by
  have split : (c.account i).text.toList = [' '].intercalate
      (((upperHex 2 c.pc.toNat).toList ++ [':']) :: i.opcode.mnemonic.toList ::
        (c.details i).map String.toList) := by
    rw [account, String.toList_intercalate, List.map_cons, List.map_cons, String.toList_append]
    rfl
  have label := upperHex_colon 2 c.pc.toNat
  have name := Source.solid_of_spells (Source.spells_mnemonic i.opcode)
  rw [split, words_intercalate_cons label.1 label.2,
    words_intercalate_cons name.nonempty name.unblank]

theorem opcode?_account (c : Configuration size) (i : Instruction) :
    (c.account i).opcode? = some i.opcode := by
  rw [Record.opcode?, words_account]
  exact Source.Statement.ofName?_eq_some.mpr (Source.spells_mnemonic i.opcode)

theorem words_details_prn (c : Configuration size) (source : Register) :
    words ([' '].intercalate ((c.details (.prn source)).map String.toList)) =
      (c.details (.prn source)).map String.toList := by
  refine words_intercalate (List.forall_mem_cons.mpr ⟨?_, List.forall_mem_singleton.mpr
    ⟨toString_ne_nil _, toString_unblank _⟩⟩)
  have name : (registerName source ++ ":").toList =
      'R' :: ((toString source.val).toList ++ [':']) := by
    rw [registerName, String.toList_append, String.toList_append]
    rfl
  rw [name]
  refine ⟨List.cons_ne_nil _ _, List.forall_mem_cons.mpr ⟨rfl, ?_⟩⟩
  exact List.forall_mem_append.mpr ⟨toString_unblank _, List.forall_mem_singleton.mpr rfl⟩

/-- A record shows a value as printed exactly if the instruction prints it. -/
theorem printed?_account (c : Configuration size) (i : Instruction) :
    (c.account i).printed?.toList = (c.change i).printed := by
  rw [Record.printed?, opcode?_account]
  by_cases prints : i.opcode = .prn
  · obtain ⟨source, rfl⟩ : ∃ source, i = .prn source := by
      cases i with
      | prn source => exact ⟨source, rfl⟩
      | arithmetic operation => cases operation <;> contradiction
      | branch condition => cases condition <;> contradiction
      | hlt | ldi | push | pop | call | ret | cmp | jmp => contradiction
    have last : (words (c.account (.prn source)).text.toList).getLast? =
        some (toString (c.get source).toNat).toList := by
      rw [words_account, words_details_prn]
      rfl
    rw [if_pos (congrArg some prints), last, Option.bind_some,
      Number.byte_of_writes (by decide) (by decide) (writes_toString _)]
    rfl
  · rw [if_neg fun same => prints (Option.some.inj same), (change_of_ne c i).2.1 prints]
    rfl

theorem events_account (c : Configuration size) (i : Instruction) :
    (c.account i).events = (c.change i).printed.map .printed ++ [.logged (c.account i)] := by
  rw [Record.events, printed?_account]

end Configuration

namespace Machine

/-- The record of the instruction that the next step executes. -/
def account? (machine : Machine size) : Option Record :=
  machine.executes?.map machine.configuration.account

/-- The records of the instructions that the first steps execute. -/
def accounts (machine : Machine size) (count : Nat) : List Record :=
  gather account? machine count

/-- The journal without the records of the trace level, which no session shows. -/
def transcript (machine : Machine size) : List Event :=
  machine.journal.toList.filter (·.shownAt .debug)

theorem transcript_log (machine : Machine size) (record : Record) :
    ({ machine with journal := machine.journal.push (.logged record) } :
      Machine size).transcript =
        machine.transcript ++ [.logged record].filter (·.shownAt .debug) := by
  rw [transcript, Array.toList_push, List.filter_append]
  rfl

theorem transcript_traced (machine : Machine size) :
    (traced machine).transcript = machine.transcript :=
  (machine.transcript_log _).trans (List.append_nil _)

end Machine

namespace Exec

open ByteMachine.Configuration

variable {machine after : Machine size} {i : Instruction} {flow : Flow} {account : String}
variable {fault : Fault} {status : Status}

theorem configuration_of_push {value : Byte} (pushed : push value machine = .ok () after) :
    after.configuration = machine.configuration.push value := by
  cases meets : machine.configuration.pushFault? with
  | some fault => cases pushed.symm.trans (push_faults value meets)
  | none =>
    obtain ⟨after', succeeded, effect⟩ := push_succeeds value (pushFault?_eq_none.mp meets)
    cases pushed.symm.trans succeeded
    exact effect

theorem top_of_pop {value : Byte} (popped : pop machine = .ok value after) :
    value = machine.configuration.top := by
  cases meets : machine.configuration.popFault? with
  | some fault => cases popped.symm.trans (pop_faults meets)
  | none =>
    obtain ⟨after', succeeded, _⟩ := pop_succeeds (popFault?_eq_none.mp meets)
    cases popped.symm.trans succeeded
    rfl

/-- The account that an instruction gives of itself is true of the configuration before it. -/
theorem account_of_perform (performed : perform i machine = .ok (flow, account) after) :
    account = " ".intercalate (i.opcode.mnemonic :: machine.configuration.details i) := by
  cases i
  -- what the stack gives or leaves is known from the action that has succeeded
  case' push source =>
    obtain ⟨value, _, ⟨⟩, performed⟩ := bind_apply_eq_ok.mp performed
    obtain ⟨_, pushed, _, performed⟩ := bind_apply_eq_ok.mp performed
  case' pop target =>
    obtain ⟨value, popped, succeeded, performed⟩ := bind_apply_eq_ok.mp performed
    cases top_of_pop succeeded
  case' ret =>
    obtain ⟨value, popped, succeeded, performed⟩ := bind_apply_eq_ok.mp performed
    cases top_of_pop succeeded
  case' call target =>
    obtain ⟨processor, _, ⟨⟩, performed⟩ := bind_apply_eq_ok.mp performed
    rw [ite_apply] at performed
    split at performed
    · contradiction
    obtain ⟨_, pushed, succeeded, performed⟩ := bind_apply_eq_ok.mp performed
    have effect : pushed.configuration = machine.configuration.push machine.configuration.back :=
      configuration_of_push succeeded
    rw [details, ← effect]
  all_goals
    cases performed
    refine String.ext ?_
    simp only [named, pair, details, registerName, String.intercalate_cons_cons,
      String.intercalate_singleton, String.toList_append, List.append_assoc]
    rfl

theorem printed_of_perform (performed : perform i machine = .ok (flow, account) after) :
    after.printed = machine.printed ++ (machine.configuration.change i).printed := by
  cases meets : machine.configuration.performFault? i with
  | some fault => cases performed.symm.trans (perform_faults meets)
  | none =>
    obtain ⟨flow', account', after', succeeded, effect⟩ := perform_succeeds meets
    cases performed.symm.trans succeeded
    exact congrArg Configuration.printed effect.entry

/-- Performing an instruction adds the values that the table says it prints, and nothing else. -/
theorem journal_of_perform (performed : perform i machine = .ok (flow, account) after) :
    after.journal.toList =
      machine.journal.toList ++ (machine.configuration.change i).printed.map .printed := by
  have silent : Adds (fun event => event.record? = none) (perform i : Exec size (Flow × String)) :=
    adds_perform (fun _ => rfl) i
  obtain ⟨events, added, none⟩ := silent machine
  have left : (perform i).leaves machine = after := by rw [leaves, performed]
  rw [left] at added
  have values : events.filterMap Event.value? = (machine.configuration.change i).printed := by
    have printed := printed_of_perform performed
    rw [Machine.printed, added, List.filterMap_append] at printed
    exact List.append_cancel_left printed
  rw [added, ← values, Event.map_printed none]

/-- The record is made once the instruction has succeeded. -/
theorem performs_of_execute {opcode : Opcode} {a b : Byte}
    (decoded : Instruction.decode opcode a b = .ok i)
    (executed : execute opcode a b machine = .ok flow after) :
    ∃ account done, perform i machine = .ok (flow, account) done ∧
      after = { done with
        journal := done.journal.push (.logged (machine.configuration.account i)) } := by
  obtain ⟨processor, before, ⟨⟩, executed⟩ := bind_apply_eq_ok.mp executed
  simp only [decoded] at executed
  obtain ⟨⟨flow', account⟩, done, performed, logged⟩ := bind_apply_eq_ok.mp executed
  cases logged
  have told : (⟨.debug, .processor, upperHex 2 machine.processor.pc.toNat ++ ": " ++ account⟩ :
      Record) = machine.configuration.account i := by
    rw [account_of_perform performed, Configuration.account, String.intercalate_cons_cons]
    refine congrArg (Record.mk .debug .processor) (String.ext ?_)
    simp only [String.toList_append, List.append_assoc]
    rfl
  refine ⟨account, done, performed, ?_⟩
  rw [told]

/-- Behind its trace record, a step that succeeds executes the instruction at the program
counter. -/
theorem executes_of_step (running : machine.isHalted = false)
    (succeeded : step machine = .ok status after) :
    ∃ i opcode a b flow done, machine.memory.instructionAt machine.processor.pc = .ok i ∧
      Instruction.decode opcode a b = .ok i ∧
      execute opcode a b (traced machine) = .ok flow done ∧ after.journal = done.journal := by
  obtain ⟨steps, _⟩ := steps_of_step succeeded
  cases instruction : machine.memory.instructionAt machine.processor.pc with
  | error fault =>
    have meets : machine.configuration.fault? = some fault :=
      fault?_of_refused running instruction
    cases meets.symm.trans steps.faultless
  | ok i =>
    obtain ⟨opcode, a, b, encoded, decoded⟩ := Memory.instructionAt_eq_ok.mp instruction
    obtain ⟨x, y, same, unfolded⟩ := step_of_fetched running encoded
    rw [unfolded] at succeeded
    obtain ⟨flow, done, executed, moved⟩ := bind_apply_eq_ok.mp succeeded
    cases moved
    exact ⟨i, opcode, x, y, flow, done, rfl, same.trans decoded, executed, rfl⟩

theorem transcript_of_step (running : machine.isHalted = false)
    (succeeded : step machine = .ok status after) :
    ∃ i, machine.memory.instructionAt machine.processor.pc = .ok i ∧
      after.transcript = machine.transcript ++ (machine.configuration.account i).events := by
  obtain ⟨i, opcode, a, b, flow, done, instruction, decoded, executed, journal⟩ :=
    executes_of_step running succeeded
  obtain ⟨account, performed, performs, rfl⟩ := performs_of_execute decoded executed
  have values : ((machine.configuration.change i).printed.map Event.printed).filter
      (·.shownAt .debug) = (machine.configuration.change i).printed.map Event.printed :=
    List.filter_eq_self.mpr (List.forall_mem_map.mpr fun _ _ => rfl)
  refine ⟨i, instruction, ?_⟩
  calc after.transcript
      = performed.transcript ++ [.logged (machine.configuration.account i)] := by
        rw [Machine.transcript, journal, configuration_traced]
        exact performed.transcript_log _
    _ = machine.transcript ++ (machine.configuration.change i).printed.map .printed ++
          [.logged (machine.configuration.account i)] := by
        rw [Machine.transcript, journal_of_perform performs, List.filter_append,
          configuration_traced, values]
        exact congrArg (· ++ _ ++ _) (Machine.transcript_traced machine)
    _ = machine.transcript ++ (machine.configuration.account i).events := by
        rw [List.append_assoc, Configuration.events_account]

/-- A step that faults has left at most its trace record. -/
theorem leaves_of_fault (faulted : step machine = .error fault after) :
    after = machine ∨ after = traced machine := by
  cases halted : machine.isHalted with
  | true => cases faulted.symm.trans (step_of_halted halted)
  | false =>
    cases fetched : machine.memory.encodingAt machine.processor.pc with
    | error fault =>
      cases faulted.symm.trans (step_of_unfetched halted fetched)
      exact .inl rfl
    | ok encoding =>
      obtain ⟨opcode, a, b⟩ := encoding
      obtain ⟨x, y, _, unfolded⟩ := step_of_fetched halted fetched
      rw [unfolded] at faulted
      obtain stopped | ⟨flow, done, executed, moved⟩ := bind_apply_eq_error.mp faulted
      · exact .inr (execute_error stopped)
      · cases moved

theorem transcript_of_fault (faulted : step machine = .error fault after) :
    after.transcript = machine.transcript := by
  obtain rfl | rfl := leaves_of_fault faulted
  · rfl
  · exact Machine.transcript_traced machine

end Exec

namespace Machine

variable {machine : Machine size} {count : Nat}

theorem account?_of_instruction {status : Status} {after : Machine size}
    (running : machine.isHalted = false) (succeeded : step machine = .ok status after)
    {i : Instruction} (instruction : machine.memory.instructionAt machine.processor.pc = .ok i) :
    machine.account? = some (machine.configuration.account i) := by
  have current : machine.configuration.current? = some i :=
    Configuration.current?_eq_some.mpr ⟨running, instruction⟩
  simp only [account?, executes?, succeeded, current, Option.map_some]

theorem accounts_succ (machine : Machine size) (count : Nat) :
    machine.accounts (count + 1) =
      machine.accounts count ++ (machine.after count).account?.toList :=
  gather_succ account? machine count

theorem transcript_step (machine : Machine size) :
    (step.leaves machine).transcript =
      machine.transcript ++ machine.account?.toList.flatMap Record.events := by
  cases ended : step machine with
  | error fault after =>
    have silent : machine.account? = none := by
      simp only [account?, executes?, ended, Option.map_none]
    rw [leaves, ended, silent, transcript_of_fault ended]
    exact (List.append_nil _).symm
  | ok status after =>
    cases halted : machine.isHalted with
    | true =>
      have rests : machine.configuration.current? = none := if_pos halted
      cases ended.symm.trans (step_of_halted halted)
      have silent : machine.account? = none := by
        simp only [account?, executes?, ended, rests, Option.map_none]
      rw [leaves, ended, silent]
      exact (List.append_nil _).symm
    | false =>
      obtain ⟨i, instruction, told⟩ := transcript_of_step halted ended
      rw [leaves, ended, told, account?_of_instruction halted ended instruction,
        Option.toList_some, List.flatMap_singleton]

/-- Step by step, the transcript grows by what the records of the instructions tell. -/
theorem transcript_after (machine : Machine size) (count : Nat) :
    (machine.after count).transcript =
      machine.transcript ++ (machine.accounts count).flatMap Record.events := by
  induction count with
  | zero => exact (List.append_nil _).symm
  | succ count ih =>
    calc (machine.after (count + 1)).transcript
        = (machine.after count).transcript ++
            (machine.after count).account?.toList.flatMap Record.events := transcript_step _
      _ = machine.transcript ++ (machine.accounts (count + 1)).flatMap Record.events := by
          rw [ih, List.append_assoc, accounts_succ, List.flatMap_append]

theorem exists_account_of_mem {record : Record} (member : record ∈ machine.accounts count) :
    ∃ (c : Configuration size) (i : Instruction), record = c.account i := by
  obtain ⟨k, _, tells⟩ := List.mem_filterMap.mp member
  obtain ⟨i, _, rfl⟩ := Option.map_eq_some_iff.mp tells
  exact ⟨_, i, rfl⟩

theorem level_of_mem_accounts {record : Record} (member : record ∈ machine.accounts count) :
    record.level = .debug := by
  obtain ⟨c, i, rfl⟩ := exists_account_of_mem member
  rfl

theorem origin_of_mem_accounts {record : Record} (member : record ∈ machine.accounts count) :
    record.origin = .processor := by
  obtain ⟨c, i, rfl⟩ := exists_account_of_mem member
  rfl

/-- Each of the first steps that succeeds on a running machine has a record. -/
theorem length_accounts (runs : machine.Runs count)
    (running : ∀ k < count, (machine.after k).isHalted = false) :
    (machine.accounts count).length = count := by
  rw [accounts, gather, List.filterMap_length_eq_length.mpr, List.length_range]
  intro k member
  have within := List.mem_range.mp member
  obtain ⟨status, succeeded⟩ := runs k within
  obtain ⟨i, instruction, _⟩ := transcript_of_step (running k within) succeeded
  rw [account?_of_instruction (running k within) succeeded instruction]
  rfl

theorem HaltsAfter.length_accounts (halts : machine.HaltsAfter count) :
    (machine.accounts count).length = count :=
  Machine.length_accounts halts.runs halts.first

theorem StaysRunning.length_accounts (stays : machine.StaysRunning count) :
    (machine.accounts count).length = count :=
  Machine.length_accounts stays.runs fun k within => stays.running k (Nat.le_of_lt within)

section Alike

variable {machine other : Machine size}

theorem executes?_alike (alike : machine.configuration = other.configuration) :
    machine.executes? = other.executes? := by
  obtain ⟨fault, after, meets, faulted, _⟩ | ⟨after, succeeded, steps⟩ := step_outcome machine
  · rw [alike] at meets
    obtain ⟨after', faulted', _⟩ := step_of_fault meets
    simp only [executes?, faulted, faulted']
  · rw [alike] at steps
    obtain ⟨after', succeeded', _⟩ := step_of_steps steps
    simp only [executes?, succeeded, succeeded', alike]

/-- What a journal holds already does not matter to the records of a run. -/
theorem accounts_alike (alike : machine.configuration = other.configuration) (count : Nat) :
    machine.accounts count = other.accounts count := by
  refine List.filterMap_congr fun k _ => ?_
  have later := after_alike alike k
  rw [account?, executes?_alike later, later, account?]

end Alike

end Machine

end ByteMachine
