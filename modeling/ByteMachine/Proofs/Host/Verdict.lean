import Mathlib.Logic.ExistsUnique
import ByteMachine.Proofs.Host.Errors

/-! How the program exits. A command line is refused, asks for help or runs a program, and which of
it decides where something is written. A run exits with success exactly if its program can be read,
loads and halts; otherwise the report of what went wrong is the last thing that it shows, and no
other error of the host's own comes before it. -/
namespace ByteMachine.Host

open CommandLine Exec

/-- The program file is text that loads without a problem, and the machine halts. -/
def Completes (contents : Except ReadError String) : Prop :=
  ∃ text memory count, contents = .ok text ∧
    (Source.load (.zeros : Memory memorySize) text.toList).result = .ok memory ∧
    (Machine.start memory).HaltsAfter count

/-- The report of what went wrong with a program file. That of a fault shows the processor before
the instruction that met it. -/
inductive FailsWith (contents : Except ReadError String) (program : String) :
    List String → Prop where
  | unreadable {cause} (unread : contents = .error cause) :
      FailsWith contents program ["Failed to read `" ++ program ++ "`", cause.message]
  | malformed {text diagnostics} (read : contents = .ok text)
      (refused : (Source.load (.zeros : Memory memorySize) text.toList).result =
        .error diagnostics) :
      FailsWith contents program
        ["Failed to parse `" ++ program ++ "`", Source.Diagnostic.summarize diagnostics]
  | faulted {text memory count fault stopped} (read : contents = .ok text)
      (loaded : (Source.load (.zeros : Memory memorySize) text.toList).result = .ok memory)
      (stays : (Machine.start memory).StaysRunning count)
      (faulted : step ((Machine.start memory).after count) = .error fault stopped) :
      FailsWith contents program
        ["Execution of `" ++ program ++ "` failed (" ++
          ((Machine.start memory).after count).processor.trace ++ ")", fault.message]

section Verdict

variable {settings : Settings} {contents : Except ReadError String} {account : Account}
variable {program : String} {chain : List String}

theorem FailsWith.not_completes (fails : FailsWith contents program chain) :
    ¬ Completes contents := by
  rintro ⟨text, memory, count, read, loaded, halts⟩
  cases fails with
  | unreadable unread => cases unread.symm.trans read
  | malformed read' refused =>
    cases read.symm.trans read'
    cases loaded.symm.trans refused
  | faulted read' loaded' stays faulted =>
    cases read.symm.trans read'
    cases loaded.symm.trans loaded'
    exact halts.faultless stays faulted

/-- The records of a dump do not change what the machine does. -/
theorem EndsWith.completes (ends : EndsWith settings contents account)
    (success : account.failure = none) : Completes contents := by
  cases ends with
  | unopened opened => cases success
  | faulted opened stays faulted => cases success
  | @halted records memory count opened halts =>
    obtain ⟨text, read, loaded, _⟩ := opening_eq_ok opened
    exact ⟨text, memory, count, read, loaded, halts.alike (configuration_boot settings memory)⟩

theorem EndsWith.failsWith (ends : EndsWith settings contents account)
    (failed : account.failure = some chain) : FailsWith contents settings.program chain := by
  cases ends with
  | unopened opened =>
    cases failed
    obtain ⟨cause, unread, rfl, _⟩ | ⟨text, diagnostics, read, refused, rfl, _⟩ :=
      opening_eq_error opened
    · exact .unreadable unread
    · exact .malformed read refused
  | halted opened halts => cases failed
  | @faulted records memory count fault stopped opened stays faulted =>
    cases failed
    obtain ⟨text, read, loaded, _⟩ := opening_eq_ok opened
    have alike := configuration_boot settings memory
    obtain ⟨stopped', faulted', _⟩ := Machine.fault_alike faulted alike
    have before : stopped.processor = ((Machine.start memory).after count).processor := by
      have kept := (fault_of_step faulted).2.trans (Machine.after_alike alike count)
      exact congrArg Configuration.processor kept
    rw [faultChain, before]
    exact .faulted read loaded (stays.alike alike) faulted'

end Verdict

/-- The part of the program that a piece reports an error of, if it does. The final report is one of
the host. -/
def Output.errorOrigin? : Output → Option Origin
  | .line _ => none
  | .record entry => if entry.level = .error then some entry.origin else none
  | .failure _ => some .host

section Pieces

variable {event : Event}

theorem errorOrigin?_of_calm (calm : event.Calm) :
    (Output.ofEvent event).errorOrigin? = none := by
  cases event with
  | printed value => rfl
  | logged entry => exact if_neg (calm entry rfl)

theorem errorOrigin?_of_calm_or_loaded (h : event.Calm ∨ event.Loaded) :
    (Output.ofEvent event).errorOrigin? ≠ some .host := by
  intro host
  rcases h with calm | loaded
  · cases (errorOrigin?_of_calm calm).symm.trans host
  · cases event with
    | printed value => cases host
    | logged entry =>
      have origin := (Option.ite_none_right_eq_some.mp host).2
      rw [loaded entry rfl] at origin
      cases origin

end Pieces

theorem forall_shown {holds : Output → Prop} {events : List Event} (level : Level)
    (all : ∀ event ∈ events, holds (Output.ofEvent event)) :
    ∀ piece ∈ shown level events, holds piece := by
  intro piece listed
  obtain ⟨event, member, rfl⟩ := List.mem_map.mp listed
  exact all event (List.mem_filter.mp member).1

/-- The outcome of a run of a program. -/
structure Outcome.Tells (outcome : Outcome) (contents : Except ReadError String)
    (program : String) : Prop where
  errors : outcome.errors = []
  exitCode : outcome.exitCode = 0 ∨ outcome.exitCode = 1
  completes : outcome.exitCode = 0 ↔ Completes contents
  success : outcome.exitCode = 0 → ∀ piece ∈ outcome.output, piece.errorOrigin? = none
  failure : outcome.exitCode = 1 → ∃ front chain, outcome.output = front ++ [.failure chain] ∧
    FailsWith contents program chain ∧ ∀ piece ∈ front, piece.errorOrigin? ≠ some .host

theorem EndsWith.tells {settings : Settings} {contents : Except ReadError String}
    {account : Account} (ends : EndsWith settings contents account) :
    (account.shownAt settings.level).Tells contents settings.program := by
  cases ended : account.failure with
  | none =>
    have exitCode : (account.shownAt settings.level).exitCode = 0 := by
      simp [Account.shownAt, ended]
    have output : (account.shownAt settings.level).output =
        shown settings.level account.events := by
      simp [Account.shownAt, ended]
    refine ⟨rfl, .inl exitCode, iff_of_true exitCode (ends.completes ended), fun _ => ?_, ?_⟩
    · rw [output]
      exact forall_shown _ fun event listed =>
        errorOrigin?_of_calm (ends.calm ended event listed)
    · intro failed
      cases exitCode.symm.trans failed
  | some chain =>
    have exitCode : (account.shownAt settings.level).exitCode = 1 := by
      simp [Account.shownAt, ended]
    have output : (account.shownAt settings.level).output =
        shown settings.level account.events ++ [.failure chain] := by
      simp [Account.shownAt, ended]
    have fails := ends.failsWith ended
    have unsuccessful : (account.shownAt settings.level).exitCode ≠ 0 := by
      rw [exitCode]
      exact Nat.one_ne_zero
    refine ⟨rfl, .inr exitCode, iff_of_false unsuccessful fails.not_completes, ?_, fun _ => ?_⟩
    · intro success
      exact absurd success unsuccessful
    · refine ⟨_, chain, output, fails, ?_⟩
      exact forall_shown _ fun event listed =>
        errorOrigin?_of_calm_or_loaded (ends.calm_or_loaded event listed)

/-- What the report of a refused command line says is wrong with its words. -/
inductive Complaint : ArgumentError → String → Prop where
  | unrecognized (name : String) :
      Complaint (.scan (.unrecognized name)) ("Unrecognized option: '" ++ name ++ "'")
  | argumentMissing (name : String) :
      Complaint (.scan (.argumentMissing name)) ("Argument to option '" ++ name ++ "' missing")
  | unexpectedArgument (name : String) :
      Complaint (.scan (.unexpectedArgument name))
        ("Option '" ++ name ++ "' does not take an argument")
  | repeated (switch : Switch) :
      Complaint (.scan (.repeated switch)) ("Option '" ++ switch.name ++ "' given more than once")
  | programCount : Complaint .programCount "expected exactly one program"

/-- The report of a command line that is refused. A complaint about its words shows the usage below
it, and a clock period that is no number is reported with its cause. -/
inductive RefusedWith (arguments : List String) : List String → Prop where
  | words {error text} (refused : Request.ofArguments arguments = .error error)
      (complaint : Complaint error text) :
      RefusedWith arguments [text ++ "\n" ++ usage (Request.programName arguments)]
  | clock {cause} (refused : Request.ofArguments arguments = .error (.clock cause)) :
      RefusedWith arguments ["--clock expects a number of milliseconds", cause.message]

theorem RefusedWith.request {arguments report : List String}
    (refusal : RefusedWith arguments report) :
    ∃ error, Request.ofArguments arguments = .error error := by
  cases refusal with
  | words refused complaint => exact ⟨_, refused⟩
  | clock refused => exact ⟨_, refused⟩

/-- What becomes of a command line. -/
inductive Course where
  | refusal
  | help
  | session

/-- What is written in each case, and with which exit code the program ends. -/
def Course.Describes (folder : Folder) (arguments : List String) (outcome : Outcome) :
    Course → Prop
  | refusal => outcome.exitCode = 1 ∧ outcome.output = [] ∧ RefusedWith arguments outcome.errors
  | help => Request.ofArguments arguments = .ok .help ∧ outcome.exitCode = 0 ∧
      outcome.errors = [] ∧ ∃ texts : List String, outcome.output = texts.map .line ∧
        String.join (texts.map (· ++ "\n")) = usage (Request.programName arguments)
  | session => ∃ settings, Request.ofArguments arguments = .ok (.run settings) ∧
      outcome.Tells (folder.read settings.program) settings.program

/-- The case that a command line falls under. -/
def Course.ofRequest : Except ArgumentError Request → Course
  | .error _ => refusal
  | .ok .help => help
  | .ok (.run _) => session

section Courses

variable {folder : Folder} {arguments : List String} {outcome : Outcome}

theorem Course.Describes.unique {course : Course}
    (described : course.Describes folder arguments outcome) :
    course = .ofRequest (Request.ofArguments arguments) := by
  cases course with
  | refusal =>
    obtain ⟨_, _, report⟩ := described
    obtain ⟨error, request⟩ := report.request
    rw [request, ofRequest]
  | help => rw [described.1, ofRequest]
  | session =>
    obtain ⟨settings, request, _⟩ := described
    rw [request, ofRequest]

end Courses

end ByteMachine.Host
