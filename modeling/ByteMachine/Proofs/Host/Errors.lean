import ByteMachine.Proofs.Host.Account
import ByteMachine.Proofs.Memory.Dump
import ByteMachine.Proofs.Source.Records

/-! Where the error records of a session come from. Neither a step nor a dump logs an error, so only
the loader does, for each of its diagnostics one; and a session that does not fail has loaded its
program without any. The report of a failure comes on top of that, once. -/
namespace ByteMachine

variable {size : Nat}

namespace Event

/-- The event is no error record. -/
def Calm (event : Event) : Prop := ∀ record, event.record? = some record → record.level ≠ .error

theorem calm_logged {record : Record} (h : record.level ≠ .error) : (logged record).Calm := by
  rintro _ ⟨⟩
  exact h

/-- The event is a record of the loader. -/
def Loaded (event : Event) : Prop :=
  ∀ record, event.record? = some record → record.origin = .loader

theorem loaded_logged {record : Record} (h : record.origin = .loader) :
    (logged record).Loaded := by
  rintro _ ⟨⟩
  exact h

theorem OfStep.calm {event : Event} (h : event.OfStep) : event.Calm := by
  cases event with
  | printed value => exact nofun
  | logged record => exact calm_logged h.level.2

end Event

namespace Machine

variable {machine : Machine size}

/-- No error has been logged so far. -/
def Calm (machine : Machine size) : Prop := ∀ event ∈ machine.journal.toList, event.Calm

theorem Calm.logAll (calm : machine.Calm) {records : List Record}
    (info : ∀ record ∈ records, record.level = .info) : (machine.logAll records).Calm := by
  intro event listed
  rw [Machine.logAll, Array.toList_appendList] at listed
  rcases List.mem_append.mp listed with earlier | new
  · exact calm event earlier
  · obtain ⟨record, member, rfl⟩ := List.mem_map.mp new
    apply Event.calm_logged
    rw [info record member]
    exact Level.noConfusion

theorem Calm.after (calm : machine.Calm) (count : Nat) : (machine.after count).Calm := by
  obtain ⟨events, added, steps⟩ := machine.after_journal count
  intro event listed
  rw [added] at listed
  rcases List.mem_append.mp listed with earlier | new
  · exact calm event earlier
  · exact (steps event new).calm

theorem Calm.announce (calm : machine.Calm) (count : Nat) : (machine.announce count).Calm := by
  intro event listed
  rw [Machine.announce, Array.toList_push] at listed
  rcases List.mem_append.mp listed with earlier | new
  · exact calm event earlier
  · rw [List.mem_singleton.mp new]
    exact Event.calm_logged Level.noConfusion

end Machine

namespace Host

open CommandLine

variable {settings : Settings} {contents : Except ReadError String} {account : Account}

theorem calm_boot (settings : Settings) (memory : Memory memorySize) :
    (boot settings memory).Calm := by
  have start : (Machine.start memory).Calm := List.forall_mem_nil _
  unfold boot
  split
  · exact start.logAll memory.level_dump
  · exact start

theorem calm_close {machine : Machine memorySize} (calm : machine.Calm) :
    (close settings machine).Calm := by
  unfold close
  split
  · exact calm.logAll (List.forall_mem_cons.mpr ⟨rfl, machine.memory.level_dump⟩)
  · exact calm

section Opening

variable {records : List Record} {memory : Memory memorySize}

theorem opening_eq_ok (opened : opening settings contents = ⟨records, .ok memory⟩) :
    ∃ text, contents = .ok text ∧
      (Source.load (.zeros : Memory memorySize) text.toList).result = .ok memory ∧
      records = (Source.load (.zeros : Memory memorySize) text.toList).records.toList := by
  unfold opening Source.openProgram at opened
  split at opened
  · cases opened
  · rename_i text
    obtain ⟨rfl, loaded⟩ := (Source.Opened.mk.injEq ..).mp opened
    exact ⟨text, rfl, mapError_eq_ok.mp loaded, rfl⟩

theorem opening_eq_error {error : Source.OpenError}
    (opened : opening settings contents = ⟨records, .error error⟩) :
    (∃ cause, contents = .error cause ∧ error = .unreadable settings.program cause ∧
      records = []) ∨
    ∃ text diagnostics, contents = .ok text ∧
      (Source.load (.zeros : Memory memorySize) text.toList).result = .error diagnostics ∧
      error = .malformed settings.program diagnostics ∧
      records = (Source.load (.zeros : Memory memorySize) text.toList).records.toList := by
  unfold opening Source.openProgram at opened
  split at opened
  · rename_i cause
    cases opened
    exact .inl ⟨cause, rfl, rfl, rfl⟩
  · rename_i text
    obtain ⟨rfl, failed⟩ := (Source.Opened.mk.injEq ..).mp opened
    obtain ⟨diagnostics, refused, rfl⟩ := mapError_eq_error.mp failed
    exact .inr ⟨text, diagnostics, rfl, refused, rfl, rfl⟩

theorem origin_of_opening {result : Except Source.OpenError (Memory memorySize)}
    (opened : opening settings contents = ⟨records, result⟩) :
    ∀ entry ∈ records, entry.origin = .loader := by
  unfold opening Source.openProgram at opened
  split at opened
  · cases opened
    exact List.forall_mem_nil _
  · rename_i text
    cases opened
    exact (Source.load_reported .zeros text.toList).origin

end Opening

theorem forall_events_ofRun {holds : Event → Prop} {records : List Record}
    {machine : Machine memorySize} {failure : Option (List String)} :
    (∀ event ∈ (Account.ofRun records settings machine failure).events, holds event) ↔
      (∀ entry ∈ records, holds (.logged entry)) ∧
        ∀ event ∈ (close settings machine).journal.toList, holds event := by
  simp only [Account.ofRun, List.forall_mem_append, List.forall_mem_map]

/-- A fault leaves what one more step leaves. -/
theorem calm_stopped {memory : Memory memorySize} {count : Nat} {fault : Fault}
    {stopped : Machine memorySize}
    (faulted : Exec.step ((boot settings memory).after count) = .error fault stopped) :
    stopped.Calm := by
  have left : (boot settings memory).after (count + 1) = stopped := by
    simp only [Machine.after, Exec.leaves, faulted]
  rw [← left]
  exact (calm_boot settings memory).after (count + 1)

/-- Only the loader logs errors. -/
theorem EndsWith.calm_or_loaded (ends : EndsWith settings contents account) :
    ∀ event ∈ account.events, event.Calm ∨ event.Loaded := by
  cases ends with
  | unopened opened =>
    intro event listed
    obtain ⟨entry, member, rfl⟩ := List.mem_map.mp listed
    exact .inr (Event.loaded_logged (origin_of_opening opened entry member))
  | @halted records memory count opened halts =>
    have calm := ((calm_boot settings memory).after count).announce count
    rw [forall_events_ofRun]
    exact ⟨fun entry member => .inr (Event.loaded_logged (origin_of_opening opened entry member)),
      fun event listed => .inl (calm_close calm event listed)⟩
  | @faulted records memory count fault stopped opened stays faulted =>
    have calm := calm_stopped faulted
    rw [forall_events_ofRun]
    exact ⟨fun entry member => .inr (Event.loaded_logged (origin_of_opening opened entry member)),
      fun event listed => .inl (calm_close calm event listed)⟩

/-- A session that does not fail logs no error at all. -/
theorem EndsWith.calm (ends : EndsWith settings contents account)
    (success : account.failure = none) : ∀ event ∈ account.events, event.Calm := by
  cases ends with
  | unopened opened => cases success
  | faulted opened stays faulted => cases success
  | @halted records memory count opened halts =>
    obtain ⟨text, _, loaded, rfl⟩ := opening_eq_ok opened
    rw [forall_events_ofRun]
    refine ⟨fun entry member => Event.calm_logged (Source.level_of_loaded loaded entry member), ?_⟩
    exact calm_close (((calm_boot settings memory).after count).announce count)

end Host

end ByteMachine
