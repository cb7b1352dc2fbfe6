import ByteMachine.Host
import ByteMachine.Proofs.Machine.Alike

/-! A session as an account of everything that happened in it, before a level decides what of it is
shown. The account of a session that comes to an end does not mention the clock at all, so what is
left of the switches is the level, which cuts the account, and the dump, which adds records to
it. -/
namespace ByteMachine

variable {size : Nat}

namespace Machine

theorem values_logged (records : List Record) :
    (records.map Event.logged).filterMap Event.value? = [] := by
  simp [List.filterMap_map, List.filterMap_eq_nil_iff, Event.value?]

/-- Records are no output of the program. -/
theorem configuration_logAll (machine : Machine size) (records : List Record) :
    (machine.logAll records).configuration = machine.configuration := by
  have printed : (machine.logAll records).printed = machine.printed := by
    simp only [Machine.printed, logAll, Array.toList_appendList, List.filterMap_append,
      values_logged, List.append_nil]
  exact congrArg (Configuration.mk machine.processor machine.memory) printed

end Machine

namespace Host

open CommandLine Exec

variable {settings : Settings} {contents : Except ReadError String} {memory : Memory memorySize}
variable {outcome : Outcome}

theorem configuration_boot (settings : Settings) (memory : Memory memorySize) :
    (boot settings memory).configuration = (Machine.start memory).configuration := by
  unfold boot
  split
  · exact (Machine.start memory).configuration_logAll _
  · rfl

theorem configuration_close (settings : Settings) (machine : Machine memorySize) :
    (close settings machine).configuration = machine.configuration := by
  unfold close
  split
  · exact machine.configuration_logAll _
  · rfl

theorem boot_running (settings : Settings) (memory : Memory memorySize) :
    (boot settings memory).isHalted = false :=
  congrArg Configuration.isHalted (configuration_boot settings memory)

theorem faultChain_alike {settings' : Settings} {machine other : Machine memorySize}
    (program : settings.program = settings'.program)
    (alike : machine.configuration = other.configuration) (fault : Fault) :
    faultChain settings fault machine = faultChain settings' fault other := by
  have processor : machine.processor = other.processor :=
    congrArg Configuration.processor alike
  rw [faultChain, faultChain, program, processor]

/-- What a session leaves: all of its events, and the report of its failure if it failed. -/
structure Account where
  events : List Event
  failure : Option (List String)

namespace Account

/-- The account as it is shown at a level. A failure is shown at every level. -/
def shownAt (level : Level) (account : Account) : Outcome where
  exitCode := if account.failure.isSome then 1 else 0
  output := shown level account.events ++ (account.failure.map .failure).toList
  errors := []

/-- The values that the program has printed. -/
def values (account : Account) : List Byte :=
  account.events.filterMap Event.value?

/-- The account of a program that has run, with the records of its loading in front. -/
def ofRun (records : List Record) (settings : Settings) (machine : Machine memorySize)
    (failure : Option (List String)) : Account :=
  ⟨records.map .logged ++ (close settings machine).journal.toList, failure⟩

end Account

/-- The program file as far as it can be loaded. -/
def opening (settings : Settings) (contents : Except ReadError String) :
    Source.Opened memorySize :=
  Source.openProgram settings.program contents

/-- The account of a session that comes to an end. Its program cannot be loaded, halts or faults;
the state that the machine is in then does not depend on how it is driven. -/
inductive EndsWith (settings : Settings) (contents : Except ReadError String) : Account → Prop where
  | unopened {records error} (opened : opening settings contents = ⟨records, .error error⟩) :
      EndsWith settings contents ⟨records.map .logged, some error.chain⟩
  | halted {records memory count} (opened : opening settings contents = ⟨records, .ok memory⟩)
      (halts : (boot settings memory).HaltsAfter count) :
      EndsWith settings contents
        (.ofRun records settings (((boot settings memory).after count).announce count) none)
  | faulted {records memory count fault stopped}
      (opened : opening settings contents = ⟨records, .ok memory⟩)
      (stays : (boot settings memory).StaysRunning count)
      (faulted : step ((boot settings memory).after count) = .error fault stopped) :
      EndsWith settings contents
        (.ofRun records settings stopped (some (faultChain settings fault stopped)))

section Session

variable {records : List Record} {limit : Nat}

theorem session_of_unopened {error : Source.OpenError}
    (opened : opening settings contents = ⟨records, .error error⟩) :
    session limit settings contents =
      some (Account.shownAt settings.level ⟨records.map .logged, some error.chain⟩) := by
  unfold opening at opened
  simp only [session, opened]
  rfl

theorem session_of_opened (opened : opening settings contents = ⟨records, .ok memory⟩) :
    session limit settings contents =
      match drive settings.pace limit 0 (boot settings memory) with
      | .ok none _ => none
      | .ok (some _) machine =>
        some ((Account.ofRun records settings machine none).shownAt settings.level)
      | .error fault machine =>
        some ((Account.ofRun records settings machine
          (some (faultChain settings fault machine))).shownAt settings.level) := by
  unfold opening at opened
  simp only [session, opened, execute]
  cases drive settings.pace limit 0 (boot settings memory) with
  | error fault machine => simp [Account.shownAt, Account.ofRun, shown]
  | ok answer machine =>
    cases answer with
    | none => rfl
    | some total => simp [Account.shownAt, Account.ofRun, shown]

/-- More turns than a session needs change nothing. -/
theorem session_stable (ended : session limit settings contents = some outcome) (extra : Nat) :
    session (limit + extra) settings contents = some outcome := by
  cases opened : opening settings contents with
  | mk records result =>
  cases result with
  | error error =>
    rw [session_of_unopened opened] at ended ⊢
    exact ended
  | ok memory =>
    rw [session_of_opened opened] at ended ⊢
    split at ended
    · contradiction
    · rename_i answered
      rw [drive_stable answered nofun extra]
      exact ended
    · rename_i failed
      rw [drive_stable failed nofun extra]
      exact ended

theorem session_unique {more : Nat} {other : Outcome}
    (ended : session limit settings contents = some outcome)
    (ended' : session more settings contents = some other) : outcome = other := by
  have long := session_stable ended more
  rw [Nat.add_comm, session_stable ended' limit] at long
  exact (Option.some.inj long).symm

theorem endsWith_of_session (ended : session limit settings contents = some outcome) :
    ∃ account, EndsWith settings contents account ∧ outcome = account.shownAt settings.level := by
  cases opened : opening settings contents with
  | mk records result =>
  cases result with
  | error error =>
    rw [session_of_unopened opened] at ended
    exact ⟨_, .unopened opened, (Option.some.inj ended).symm⟩
  | ok memory =>
    have running := boot_running settings memory
    rw [session_of_opened opened] at ended
    split at ended
    · contradiction
    · rename_i total machine answered
      obtain ⟨halts, rfl⟩ := (answers_iff running).mp ⟨limit, answered⟩
      exact ⟨_, .halted opened halts, (Option.some.inj ended).symm⟩
    · rename_i fault stopped failed
      obtain ⟨count, stays, faulted⟩ := (fails_iff running).mp ⟨limit, failed⟩
      exact ⟨_, .faulted opened stays faulted, (Option.some.inj ended).symm⟩

theorem session_of_endsWith {account : Account} (ends : EndsWith settings contents account) :
    ∃ limit, session limit settings contents = some (account.shownAt settings.level) := by
  cases ends with
  | unopened opened => exact ⟨0, session_of_unopened opened⟩
  | @halted records memory count opened halts =>
    obtain ⟨limit, answered⟩ := (answers_iff (boot_running settings memory)).mpr ⟨halts, rfl⟩
    exact ⟨limit, by rw [session_of_opened opened, answered]⟩
  | @faulted records memory count fault stopped opened stays faulted =>
    obtain ⟨limit, failed⟩ :=
      (fails_iff (boot_running settings memory)).mpr ⟨count, stays, faulted⟩
    exact ⟨limit, by rw [session_of_opened opened, failed]⟩

end Session

end Host

end ByteMachine
