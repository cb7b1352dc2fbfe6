import ByteMachine.Proofs.Host.Errors
import ByteMachine.Proofs.Host.Switches
import ByteMachine.Proofs.Machine.Verbose

/-! Sessions that dump. A dump is asked for to see the memory before and after a run, so neither
quiet nor a fault takes anything of it away: the level is never below info, and the report of a
fault waits for the second dump. -/
namespace ByteMachine

variable {size : Nat}

/-- How a run ends, with the number of the steps that it takes: it halts, or the next step meets a
fault. -/
inductive Machine.Ends (machine : Machine size) (count : Nat) : Option Fault → Prop where
  | halts (halts : machine.HaltsAfter count) : Ends machine count none
  | faults {fault : Fault} {stopped : Machine size} (stays : machine.StaysRunning count)
      (faulted : Exec.step (machine.after count) = .error fault stopped) :
      Ends machine count (some fault)

namespace Host

open CommandLine Exec

/-- The level of a session that dumps. -/
def dumpLevel (verbose : Bool) : Level :=
  if verbose then .debug else .info

/-- What a session shows of instructions with these records: the value that an instruction prints on
a line and, if the session is verbose, the record behind it. -/
def runOutput (verbose : Bool) (accounts : List Record) : List Output :=
  accounts.flatMap fun record =>
    record.printed?.toList.map (fun value => .line (valueLine value)) ++
      if verbose then [.record record] else []

/-- The outcome of a session that dumps. The program has left records when it was loaded, and the
machine that it was loaded into takes a number of steps before it halts or meets a fault. -/
def dumpedOutcome (verbose : Bool) (settings : Settings) (loading : List Record)
    (machine : Machine memorySize) (count : Nat) (fault? : Option Fault) : Outcome :=
  let final := machine.after count
  { exitCode := if fault?.isSome then 1 else 0
    output :=
      (if verbose then loading.map .record else []) ++
      machine.memory.dump.map .record ++
      runOutput verbose (machine.accounts count) ++
      (if fault?.isNone then [.record (announcement count)] else []) ++
      .record ⟨.info, .host, final.processor.trace⟩ :: final.memory.dump.map .record ++
      (fault?.map fun fault => .failure (faultChain settings fault final)).toList
    errors := [] }

theorem settings_of_request {arguments : List String} {scan : Scan} {settings : Settings}
    (scanned : Scan.ofWords arguments.tail = .ok scan)
    (request : Request.ofArguments arguments = .ok (.run settings)) :
    settings.dump = scan.has .dump ∧ settings.level = Request.level scan := by
  rw [Request.ofArguments, scanned] at request
  dsimp only at request
  split at request
  · cases request
  · split at request
    · obtain ⟨clock, -, whole⟩ := bind_eq_ok.mp request
      cases whole
      exact ⟨rfl, rfl⟩
    · cases request

theorem level_of_dump {scan : Scan} (asks : scan.has .dump = true) :
    Request.level scan = dumpLevel (scan.has .verbose) := by
  rw [Request.level, asks, dumpLevel]
  simp

section Shown

variable {verbose : Bool} {records : List Record}

theorem shown_append (level : Level) (first second : List Event) :
    shown level (first ++ second) = shown level first ++ shown level second := by
  simp only [shown, List.filter_append, List.map_append]

theorem shown_logged (level : Level) (records : List Record) :
    shown level (records.map .logged) = (records.filter (·.shownAt level)).map .record := by
  rw [shown, List.filter_map, List.map_map]
  rfl

theorem shown_printed (level : Level) (values : List Byte) :
    shown level (values.map .printed) = values.map fun value => .line (valueLine value) := by
  rw [shown, List.filter_eq_self.mpr (List.forall_mem_map.mpr fun _ _ => rfl), List.map_map]
  rfl

theorem shown_info (info : ∀ record ∈ records, record.level = .info) :
    shown (dumpLevel verbose) (records.map .logged) = records.map .record := by
  have visible : ∀ record ∈ records, record.shownAt (dumpLevel verbose) = true := by
    intro record listed
    rw [Record.shownAt, info record listed]
    cases verbose <;> rfl
  rw [shown_logged, List.filter_eq_self.mpr visible]

theorem shown_debug (debug : ∀ record ∈ records, record.level = .debug) :
    shown (dumpLevel verbose) (records.map .logged) =
      if verbose then records.map .record else [] := by
  have visible : ∀ record ∈ records, record.shownAt (dumpLevel verbose) = verbose := by
    intro record listed
    rw [Record.shownAt, debug record listed]
    cases verbose <;> rfl
  rw [shown_logged, List.filter_congr visible]
  cases verbose with
  | true => rw [List.filter_true]; rfl
  | false => rw [List.filter_false]; rfl

theorem shown_events (debug : ∀ record ∈ records, record.level = .debug) :
    shown (dumpLevel verbose) (records.flatMap Record.events) = runOutput verbose records := by
  induction records with
  | nil => rfl
  | cons record records ih =>
    obtain ⟨first, rest⟩ := List.forall_mem_cons.mp debug
    have entry : shown (dumpLevel verbose) [.logged record] =
        if verbose then [.record record] else [] :=
      shown_debug (List.forall_mem_singleton.mpr first)
    rw [List.flatMap_cons, shown_append, Record.events, shown_append, shown_printed, entry, ih rest]
    rfl

theorem shown_transcript (verbose : Bool) (machine : Machine size) :
    shown (dumpLevel verbose) machine.transcript =
      shown (dumpLevel verbose) machine.journal.toList := by
  have le : (dumpLevel verbose).rank ≤ Level.debug.rank := by cases verbose <;> decide
  simp only [shown, Machine.transcript, List.filter_filter, shownAt_and le]

end Shown

section Ending

variable {settings : Settings} {contents : Except ReadError String} {loading : List Record}
variable {memory : Memory memorySize} {verbose : Bool} {count : Nat}

theorem boot_of_dump (dumps : settings.dump = true) (memory : Memory memorySize) :
    boot settings memory = (Machine.start memory).logAll memory.dump :=
  if_pos dumps

theorem shown_boot (dumps : settings.dump = true) (memory : Memory memorySize) :
    shown (dumpLevel verbose) (boot settings memory).journal.toList =
      memory.dump.map .record := by
  rw [boot_of_dump dumps, Machine.logAll, Array.toList_appendList]
  exact shown_info memory.level_dump

/-- Behind the first dump, the run shows what its records tell. -/
theorem shown_after (dumps : settings.dump = true) (memory : Memory memorySize) (count : Nat) :
    shown (dumpLevel verbose) ((boot settings memory).after count).journal.toList =
      memory.dump.map .record ++ runOutput verbose ((Machine.start memory).accounts count) := by
  rw [← shown_transcript, Machine.transcript_after, shown_append, shown_transcript,
    shown_boot dumps, shown_events fun _ => Machine.level_of_mem_accounts,
    Machine.accounts_alike (configuration_boot settings memory)]

theorem shown_close (dumps : settings.dump = true) (machine : Machine memorySize) :
    shown (dumpLevel verbose) (close settings machine).journal.toList =
      shown (dumpLevel verbose) machine.journal.toList ++
        .record ⟨.info, .host, machine.processor.trace⟩ :: machine.memory.dump.map .record := by
  rw [close, if_pos dumps, Machine.logAll, Array.toList_appendList, shown_append]
  refine congrArg (_ ++ ·) (shown_info ?_)
  exact List.forall_mem_cons.mpr ⟨rfl, machine.memory.level_dump⟩

/-- The level shows the parts of a session in their order. The trace and the second dump are those
of any machine in the configuration that the run has left. -/
theorem shownAt_ofRun (dumps : settings.dump = true)
    (debug : ∀ record ∈ loading, record.level = .debug) {machine final : Machine memorySize}
    (left : machine.configuration = final.configuration) (failure : Option (List String)) :
    (Account.ofRun loading settings machine failure).shownAt (dumpLevel verbose) =
      ⟨if failure.isSome then 1 else 0,
        (if verbose then loading.map .record else []) ++
          shown (dumpLevel verbose) machine.journal.toList ++
          .record ⟨.info, .host, final.processor.trace⟩ :: final.memory.dump.map .record ++
          (failure.map .failure).toList, []⟩ := by
  have processor : machine.processor = final.processor := congrArg Configuration.processor left
  have memory : machine.memory = final.memory := congrArg Configuration.memory left
  rw [Account.shownAt, Account.ofRun, shown_append, shown_debug debug, shown_close dumps, processor,
    memory]
  simp only [List.append_assoc]

theorem shownAt_of_halted (dumps : settings.dump = true)
    (debug : ∀ record ∈ loading, record.level = .debug) (count : Nat) :
    (Account.ofRun loading settings (((boot settings memory).after count).announce count)
      none).shownAt (dumpLevel verbose) =
      dumpedOutcome verbose settings loading (.start memory) count none := by
  have announced : shown (dumpLevel verbose)
      (((boot settings memory).after count).announce count).journal.toList =
        memory.dump.map .record ++ runOutput verbose ((Machine.start memory).accounts count) ++
          [.record (announcement count)] := by
    have entry : shown (dumpLevel verbose) [.logged (announcement count)] =
        [.record (announcement count)] := shown_info (List.forall_mem_singleton.mpr rfl)
    rw [Machine.announce, Array.toList_push, shown_append, shown_after dumps, entry]
  have left : (((boot settings memory).after count).announce count).configuration =
      ((Machine.start memory).after count).configuration := by
    rw [Machine.configuration_announce, Machine.after_alike (configuration_boot settings memory)]
  rw [shownAt_ofRun dumps debug left, announced, dumpedOutcome]
  simp only [List.append_assoc]
  rfl

theorem shownAt_of_faulted (dumps : settings.dump = true)
    (debug : ∀ record ∈ loading, record.level = .debug) {fault : Fault}
    {stopped : Machine memorySize}
    (faulted : step ((boot settings memory).after count) = .error fault stopped) :
    (Account.ofRun loading settings stopped (some (faultChain settings fault stopped))).shownAt
      (dumpLevel verbose) =
      dumpedOutcome verbose settings loading (.start memory) count (some fault) := by
  have left : stopped.configuration = ((Machine.start memory).after count).configuration :=
    (fault_of_step faulted).2.trans
      (Machine.after_alike (configuration_boot settings memory) count)
  have silent : shown (dumpLevel verbose) stopped.journal.toList =
      memory.dump.map .record ++ runOutput verbose ((Machine.start memory).accounts count) := by
    rw [← shown_transcript, transcript_of_fault faulted, shown_transcript, shown_after dumps]
  rw [faultChain_alike rfl left, shownAt_ofRun dumps debug left, silent, dumpedOutcome]
  simp only [List.append_assoc]
  rfl

/-- A session that dumps ends with the run of its program. -/
theorem session_iff_ends (dumps : settings.dump = true) (level : settings.level = dumpLevel verbose)
    (opened : opening settings contents = ⟨loading, .ok memory⟩)
    (debug : ∀ record ∈ loading, record.level = .debug) (outcome : Outcome) :
    (∃ limit, session limit settings contents = some outcome) ↔
      ∃ count fault?, (Machine.start memory).Ends count fault? ∧
        outcome = dumpedOutcome verbose settings loading (.start memory) count fault? := by
  have alike := configuration_boot settings memory
  constructor
  · rintro ⟨limit, ended⟩
    obtain ⟨account, ends, rfl⟩ := endsWith_of_session ended
    rw [level]
    cases ends with
    | unopened failed => cases opened.symm.trans failed
    | halted opened' halts =>
      cases opened.symm.trans opened'
      exact ⟨_, none, .halts (halts.alike alike), shownAt_of_halted dumps debug _⟩
    | faulted opened' stays faulted =>
      cases opened.symm.trans opened'
      obtain ⟨_, faulted', _⟩ := Machine.fault_alike faulted alike
      exact ⟨_, some _, .faults (stays.alike alike) faulted',
        shownAt_of_faulted dumps debug faulted⟩
  · rintro ⟨count, fault?, ends, rfl⟩
    cases ends with
    | halts halts =>
      obtain ⟨limit, ended⟩ := session_of_endsWith (.halted opened (halts.alike alike.symm))
      rw [level, shownAt_of_halted dumps debug] at ended
      exact ⟨limit, ended⟩
    | faults stays faulted =>
      obtain ⟨stopped, faulted', _⟩ := Machine.fault_alike faulted alike.symm
      obtain ⟨limit, ended⟩ :=
        session_of_endsWith (.faulted opened (stays.alike alike.symm) faulted')
      rw [level, shownAt_of_faulted dumps debug faulted'] at ended
      exact ⟨limit, ended⟩

end Ending

section Reading

/-- The record that a piece of output shows. The final report is none. -/
def Output.record? : Output → Option Record
  | .record entry => some entry
  | .line _ | .failure _ => none

def Outcome.records (outcome : Outcome) : List Record :=
  outcome.output.filterMap Output.record?

/-- The memory that is dumped in front of the trace. -/
def Outcome.memoryBefore (outcome : Outcome) : Memory memorySize :=
  .ofDump ((outcome.records.takeWhile (·.origin != .host)).filter (·.origin == .memory))

/-- The memory that is dumped behind the trace. -/
def Outcome.memoryAfter (outcome : Outcome) : Memory memorySize :=
  .ofDump ((outcome.records.dropWhile (·.origin != .host)).filter (·.origin == .memory))

theorem filterMap_record? (records : List Record) :
    (records.map Output.record).filterMap Output.record? = records := by
  rw [List.filterMap_map]
  exact List.filterMap_some

theorem records_runOutput (verbose : Bool) (accounts : List Record) :
    (runOutput verbose accounts).filterMap Output.record? = if verbose then accounts else [] := by
  induction accounts with
  | nil => cases verbose <;> rfl
  | cons record accounts ih =>
    have values : (record.printed?.toList.map fun value => Output.line (valueLine value)).filterMap
        Output.record? = [] := by
      cases record.printed? <;> rfl
    rw [runOutput, List.flatMap_cons, List.filterMap_append, List.filterMap_append, values,
      ← runOutput, ih]
    cases verbose <;> rfl

variable {settings : Settings} {loading : List Record} {machine : Machine memorySize}
variable {verbose : Bool} {count : Nat} {fault? : Option Fault}

theorem records_dumpedOutcome :
    (dumpedOutcome verbose settings loading machine count fault?).records =
      (if verbose then loading else []) ++ machine.memory.dump ++
        ((if verbose then machine.accounts count else []) ++
          if fault?.isNone then [announcement count] else []) ++
        ⟨.info, .host, (machine.after count).processor.trace⟩ ::
          (machine.after count).memory.dump := by
  have single (record : Record) : [Output.record record].filterMap Output.record? = [record] := rfl
  have final (record : Record) (records : List Record) :
      (Output.record record :: records.map Output.record).filterMap Output.record? =
        record :: records := filterMap_record? (record :: records)
  have report : (fault?.map fun fault =>
      Output.failure (faultChain settings fault (machine.after count))).toList.filterMap
        Output.record? = [] := by
    cases fault? <;> rfl
  simp only [Outcome.records, dumpedOutcome, List.filterMap_append,
    apply_ite (List.filterMap Output.record?), List.filterMap_nil, filterMap_record?, single, final,
    report, records_runOutput, List.append_nil, List.append_assoc]

/-- The two dumps are found by the trace between them, whatever other records there are. -/
theorem memories_of_records {outcome : Outcome} {memory final : Memory memorySize}
    {before behind : List Record} {trace : Record}
    (whole : outcome.records = before ++ memory.dump ++ behind ++ trace :: final.dump)
    (host : trace.origin = .host)
    (apart : ∀ record ∈ before ++ behind, record.origin ≠ .host ∧ record.origin ≠ .memory) :
    outcome.memoryBefore = memory ∧ outcome.memoryAfter = final := by
  obtain ⟨apartBefore, apartBehind⟩ := List.forall_mem_append.mp apart
  have front : ∀ record ∈ before ++ memory.dump ++ behind, (record.origin != .host) = true := by
    simp only [List.forall_mem_append, bne_iff_ne]
    refine ⟨⟨fun record listed => (apartBefore record listed).1, ?_⟩,
      fun record listed => (apartBehind record listed).1⟩
    intro record listed
    rw [memory.origin_dump record listed]
    exact Origin.noConfusion
  have taken : (trace :: final.dump).takeWhile (·.origin != .host) = [] :=
    List.takeWhile_cons_of_neg (by simp [host])
  have left : (trace :: final.dump).dropWhile (·.origin != .host) = trace :: final.dump :=
    List.dropWhile_cons_of_neg (by simp [host])
  have other : (trace :: final.dump).filter (·.origin == .memory) =
      final.dump.filter (·.origin == .memory) := List.filter_cons_of_neg (by simp [host])
  have kept (memory : Memory memorySize) :
      memory.dump.filter (·.origin == .memory) = memory.dump :=
    List.filter_eq_self.mpr fun record listed => beq_iff_eq.mpr (memory.origin_dump record listed)
  have dropped {records : List Record}
      (apart : ∀ record ∈ records, record.origin ≠ .host ∧ record.origin ≠ .memory) :
      records.filter (·.origin == .memory) = [] :=
    List.filter_eq_nil_iff.mpr fun record listed => (apart record listed).2 ∘ beq_iff_eq.mp
  constructor
  · rw [Outcome.memoryBefore, whole, List.takeWhile_append_of_pos front, taken]
    simp only [List.filter_append, dropped apartBefore, dropped apartBehind, kept,
      List.append_nil, List.nil_append]
    exact memory.ofDump_dump
  · rw [Outcome.memoryAfter, whole, List.dropWhile_append_of_pos front, left, other, kept]
    exact final.ofDump_dump

theorem memories_of_dumpedOutcome (loader : ∀ record ∈ loading, record.origin = .loader) :
    (dumpedOutcome verbose settings loading machine count fault?).memoryBefore = machine.memory ∧
    (dumpedOutcome verbose settings loading machine count fault?).memoryAfter =
      (machine.after count).memory := by
  refine memories_of_records records_dumpedOutcome rfl ?_
  simp only [List.forall_mem_append, List.mem_ite_nil_right]
  refine ⟨?_, ?_, ?_⟩
  · rintro record ⟨-, listed⟩
    rw [loader record listed]
    exact ⟨nofun, nofun⟩
  · rintro record ⟨-, listed⟩
    rw [Machine.origin_of_mem_accounts listed]
    exact ⟨nofun, nofun⟩
  · rintro record ⟨-, listed⟩
    rw [List.mem_singleton.mp listed]
    exact ⟨nofun, nofun⟩

theorem filterMap_line? (records : List Record) :
    (records.map Output.record).filterMap Output.line? = [] := by
  rw [List.filterMap_map]
  exact List.filterMap_eq_nil_iff.mpr fun _ _ => rfl

theorem lines_runOutput (verbose : Bool) (accounts : List Record) :
    (runOutput verbose accounts).filterMap Output.line? =
      (accounts.filterMap Record.printed?).map valueLine := by
  induction accounts with
  | nil => rfl
  | cons record accounts ih =>
    rw [runOutput, List.flatMap_cons, List.filterMap_append, List.filterMap_append, ← runOutput, ih,
      List.filterMap_cons]
    cases record.printed? <;> cases verbose <;> rfl

/-- No record is a line, so the lines are those of the run. -/
theorem lines_dumpedOutcome :
    (dumpedOutcome verbose settings loading machine count fault?).lines =
      ((machine.accounts count).filterMap Record.printed?).map valueLine := by
  have single (record : Record) : [Output.record record].filterMap Output.line? = [] :=
    filterMap_line? [record]
  have final (record : Record) (records : List Record) :
      (Output.record record :: records.map Output.record).filterMap Output.line? = [] :=
    filterMap_line? (record :: records)
  have report : (fault?.map fun fault =>
      Output.failure (faultChain settings fault (machine.after count))).toList.filterMap
        Output.line? = [] := by
    cases fault? <;> rfl
  simp only [Outcome.lines, dumpedOutcome, List.filterMap_append,
    apply_ite (List.filterMap Output.line?), List.filterMap_nil, filterMap_line?, single, final,
    report, lines_runOutput, ite_self, List.append_nil, List.nil_append]

end Reading

theorem opening_of_loaded {settings : Settings} {contents : Except ReadError String}
    {text : String} {memory : Memory memorySize} (found : contents = .ok text)
    (loaded : (Source.load (.zeros : Memory memorySize) text.toList).result = .ok memory) :
    opening settings contents =
      ⟨(Source.load (.zeros : Memory memorySize) text.toList).records.toList, .ok memory⟩ := by
  rw [opening, found, Source.openProgram, mapError_eq_ok.mpr loaded]

/-- A dump that is asked for is always shown, and in full. A command line with the switch for it,
whatever others it has, for a program that loads, ends exactly if the run of the program does. What
it shows then is, one after the other: the records of the loader, which are of the debug level, if
it is verbose; the memory as it was loaded; what the run prints, with the records of the run if it
is verbose, and the announcement of a run that halts; the trace of the processor and the memory as
the run has left them, which is before the instruction that faults if one does; and in that case at
last the report. Its lines are the printed values, and both memories can be read back from its
records. -/
theorem requested_dump_is_complete {arguments : List String} {scan : Scan} {settings : Settings}
    {folder : Folder} {text : String} {memory : Memory memorySize}
    (scanned : Scan.ofWords arguments.tail = .ok scan) (asks : scan.has .dump = true)
    (request : Request.ofArguments arguments = .ok (.run settings))
    (found : folder.read settings.program = .ok text)
    (loaded : (Source.load (.zeros : Memory memorySize) text.toList).result = .ok memory) :
    let loading := (Source.load (.zeros : Memory memorySize) text.toList).records.toList
    let machine := Machine.start memory
    (∀ record ∈ loading, record.level = .debug ∧ record.origin = .loader) ∧
    (∀ outcome, (∃ limit, run limit folder arguments = some outcome) ↔
      ∃ count fault?, machine.Ends count fault? ∧
        outcome = dumpedOutcome (scan.has .verbose) settings loading machine count fault?) ∧
    ∀ count fault?,
      let outcome := dumpedOutcome (scan.has .verbose) settings loading machine count fault?
      outcome.lines = (machine.after count).printed.map valueLine ∧
        outcome.memoryBefore = memory ∧ outcome.memoryAfter = (machine.after count).memory := by
  intro loading machine
  obtain ⟨dumps, level⟩ := settings_of_request scanned request
  have debug : ∀ record ∈ loading, record.level = .debug := Source.debug_of_loaded loaded
  have loader : ∀ record ∈ loading, record.origin = .loader :=
    (Source.load_reported .zeros text.toList).origin
  refine ⟨fun record listed => ⟨debug record listed, loader record listed⟩, fun outcome => ?_,
    fun count fault? => ⟨?_, memories_of_dumpedOutcome loader⟩⟩
  · simp only [run_of_request request]
    exact session_iff_ends (dumps.trans asks) (level.trans (level_of_dump asks))
      (opening_of_loaded found loaded) debug outcome
  · rw [lines_dumpedOutcome, Machine.printed_after]
    rfl

/-- A quiet session of a program that pushes a byte, prints it and then names a register that does
not exist. -/
theorem quiet_dump_of_faulting_program :
    let folder : Folder := ⟨[("p", .file "LDI 0 7\nPUSH 0\nPRN 0\nPOP 9".toUTF8)]⟩
    let state := "PC:07 FL:--- R:[07, 00, 00, 00, 00, 00, 00, F3]"
    ∃ limit outcome, run limit folder ["ls8", "-dq", "p"] = some outcome ∧ outcome.exitCode = 1 ∧
      outcome.output = outcome.memoryBefore.dump.map .record ++ [.line "7"] ++
        .record ⟨.info, .host, state⟩ :: outcome.memoryAfter.dump.map .record ++
        [.failure ["Execution of `p` failed (" ++ state ++ ")",
          "invalid register `R9` at 0x07"]] ∧
      outcome.memoryBefore.get? 0xF3 = some 0 ∧ outcome.memoryAfter.get? 0xF3 = some 7 := by
  intro folder state
  have found : folder.read "p" = .ok "LDI 0 7\nPUSH 0\nPRN 0\nPOP 9" := by decide +kernel
  obtain ⟨scan, scanned, asks, terse⟩ : ∃ scan, Scan.ofWords ["ls8", "-dq", "p"].tail = .ok scan ∧
      scan.has .dump = true ∧ scan.has .verbose = false := ⟨_, rfl, rfl, rfl⟩
  have request : Request.ofArguments ["ls8", "-dq", "p"] = .ok (.run ⟨"p", none, true, .info⟩) :=
    rfl
  -- the run in the loaded memory, in which nothing is dumped
  obtain ⟨memory, loaded, empty, stays, meets, printed, trace, pushed⟩ :
      ∃ memory : Memory memorySize,
        (Source.load .zeros "LDI 0 7\nPUSH 0\nPRN 0\nPOP 9".toList).result = .ok memory ∧
        memory.get? 0xF3 = some 0 ∧ (Machine.start memory).StaysRunning 3 ∧
        ((Machine.start memory).after 3).configuration.fault? = some (.invalidRegister 9 7) ∧
        runOutput false ((Machine.start memory).accounts 3) = [.line "7"] ∧
        ((Machine.start memory).after 3).processor.trace = state ∧
        ((Machine.start memory).after 3).memory.get? 0xF3 = some 7 := by
    refine ⟨(Source.load .zeros "LDI 0 7\nPUSH 0\nPRN 0\nPOP 9".toList).draft.memory, if_pos ?_, ?_,
      ⟨?_, ?_⟩, ?_, ?_, ?_, ?_⟩
    all_goals decide +kernel
  obtain ⟨stopped, faulted, _⟩ := step_of_fault meets
  obtain ⟨-, shows, tells⟩ := requested_dump_is_complete scanned asks request found loaded
  rw [terse] at shows tells
  obtain ⟨limit, ended⟩ := (shows _).mpr ⟨3, _, .faults stays faulted, rfl⟩
  obtain ⟨-, before, after⟩ := tells 3 (some (.invalidRegister 9 7))
  refine ⟨limit, _, ended, rfl, ?_⟩
  rw [before, after]
  refine ⟨?_, empty, pushed⟩
  simp only [dumpedOutcome, faultChain, printed, trace, Option.isNone_some, Bool.false_eq_true,
    if_false, List.append_nil]
  rfl

end Host

end ByteMachine
