import ByteMachine.Proofs.Host.Account

/-! The switches of the command line do not reach the program. Sessions of one program file end
together, with the same report and the same printed values, whatever their switches are. If they
dump alike, even their accounts are the same, and the level only cuts what is shown of them. -/
namespace ByteMachine.Host

open CommandLine Exec

/-- The level shows this piece of output. Only records can be hidden. -/
def Output.shownAt (level : Level) : Output → Bool
  | .line _ => true
  | .record entry => entry.shownAt level
  | .failure _ => true

def Output.line? : Output → Option String
  | .line text => some text
  | .record _ | .failure _ => none

/-- The plain lines of standard output, without the log. -/
def Outcome.lines (outcome : Outcome) : List String :=
  outcome.output.filterMap Output.line?

/-- The line that a printed value makes. -/
def valueLine (value : Byte) : String := toString value.toNat

section Levels

variable {less more : Level}

theorem shownAt_ofEvent (level : Level) (event : Event) :
    (Output.ofEvent event).shownAt level = event.shownAt level := by
  cases event <;> rfl

theorem shownAt_of_le (le : less.rank ≤ more.rank) {event : Event}
    (shown : event.shownAt less = true) : event.shownAt more = true := by
  cases event with
  | printed value => rfl
  | logged entry =>
    have rank : entry.level.rank ≤ less.rank := of_decide_eq_true shown
    exact decide_eq_true (Nat.le_trans rank le)

theorem shownAt_and (le : less.rank ≤ more.rank) (event : Event) :
    (event.shownAt less && event.shownAt more) = event.shownAt less := by
  cases hidden : event.shownAt less with
  | false => rfl
  | true => rw [shownAt_of_le le hidden]; rfl

/-- The less verbose of two levels shows what it leaves of the other. -/
theorem shown_eq_filter (le : less.rank ≤ more.rank) (events : List Event) :
    shown less events = (shown more events).filter (·.shownAt less) := by
  simp only [shown, List.filter_map, List.filter_filter, Function.comp_def, shownAt_ofEvent,
    shownAt_and le]

theorem shownAt_eq_filter (le : less.rank ≤ more.rank) (account : Account) :
    (account.shownAt less).output = (account.shownAt more).output.filter (·.shownAt less) := by
  have failures : (account.failure.map Output.failure).toList.filter (·.shownAt less) =
      (account.failure.map Output.failure).toList := by
    cases account.failure <;> rfl
  simp only [Account.shownAt, List.filter_append, failures, ← shown_eq_filter le]

/-- The lines of a session are the values of its account, at every level. -/
theorem lines_shownAt (level : Level) (account : Account) :
    (account.shownAt level).lines = account.values.map valueLine := by
  have failures : (account.failure.map Output.failure).toList.filterMap Output.line? = [] := by
    cases account.failure <;> rfl
  have events : (shown level account.events).filterMap Output.line? =
      account.values.map valueLine := by
    simp only [shown, Account.values, List.filterMap_map, List.filterMap_filter, List.map_filterMap]
    refine congrArg (List.filterMap · account.events) (funext fun event => ?_)
    cases event with
    | printed value => rfl
    | logged entry => simp [Output.ofEvent, Output.line?, Event.value?]
  simp only [Outcome.lines, Account.shownAt, List.filterMap_append, failures, List.append_nil,
    events]

end Levels

section Sessions

variable {settings settings' : Settings} {contents : Except ReadError String} {account : Account}

theorem values_ofRun (records : List Record) (settings : Settings) (machine : Machine memorySize)
    (failure : Option (List String)) :
    (Account.ofRun records settings machine failure).values = machine.printed := by
  have closed := congrArg Configuration.printed (configuration_close settings machine)
  simp only [Account.values, Account.ofRun, List.filterMap_append, Machine.values_logged,
    List.nil_append]
  exact closed

theorem boot_alike (settings settings' : Settings) (memory : Memory memorySize) :
    (boot settings memory).configuration = (boot settings' memory).configuration := by
  rw [configuration_boot, configuration_boot]

/-- Sessions of one program end together, with the same report and the same values. -/
theorem EndsWith.transfer (ends : EndsWith settings contents account)
    (program : settings.program = settings'.program) :
    ∃ account', EndsWith settings' contents account' ∧ account'.failure = account.failure ∧
      account'.values = account.values := by
  have opens : opening settings contents = opening settings' contents := by
    rw [opening, program, opening]
  cases ends with
  | unopened opened => exact ⟨_, .unopened (opens ▸ opened), rfl, rfl⟩
  | @halted records memory count opened halts =>
    have alike := boot_alike settings settings' memory
    have left := congrArg Configuration.printed (Machine.after_alike alike count)
    refine ⟨_, .halted (opens ▸ opened) (halts.alike alike), rfl, ?_⟩
    rw [values_ofRun, values_ofRun]
    change (Machine.configuration _).printed = (Machine.configuration _).printed
    rw [Machine.configuration_announce, Machine.configuration_announce]
    exact left.symm
  | @faulted records memory count fault stopped opened stays faulted =>
    have alike := boot_alike settings settings' memory
    obtain ⟨stopped', faulted', left⟩ := Machine.fault_alike faulted alike
    refine ⟨_, .faulted (opens ▸ opened) (stays.alike alike) faulted', ?_, ?_⟩
    · exact congrArg some (faultChain_alike program.symm left fault)
    · rw [values_ofRun, values_ofRun]
      exact congrArg Configuration.printed left

/-- Sessions that also dump alike have one account. -/
theorem EndsWith.of_same_dump (ends : EndsWith settings contents account)
    (program : settings.program = settings'.program) (dump : settings.dump = settings'.dump) :
    EndsWith settings' contents account := by
  have opens : opening settings contents = opening settings' contents := by
    rw [opening, program, opening]
  have boots : boot settings = boot settings' := by
    funext memory
    rw [boot, dump, boot]
  have closes : close settings = close settings' := by
    funext machine
    rw [close, dump, close]
  have reports : faultChain settings = faultChain settings' := by
    funext fault machine
    rw [faultChain, program, faultChain]
  have accounts : ∀ records machine failure,
      Account.ofRun records settings machine failure =
        Account.ofRun records settings' machine failure := by
    intro records machine failure
    rw [Account.ofRun, closes, Account.ofRun]
  cases ends with
  | unopened opened => exact .unopened (opens ▸ opened)
  | halted opened halts =>
    rw [accounts, boots]
    exact .halted (opens ▸ opened) (boots ▸ halts)
  | faulted opened stays faulted =>
    rw [accounts, reports]
    exact .faulted (opens ▸ opened) (boots ▸ stays) (boots ▸ faulted)

end Sessions

theorem run_of_request {arguments : List String} {settings : Settings}
    (request : Request.ofArguments arguments = .ok (.run settings)) (limit : Nat)
    (folder : Folder) :
    run limit folder arguments = session limit settings (folder.read settings.program) := by
  simp only [run, request]

/-- Command lines for one program end together or not at all. They exit with the same code and
print the same values in the same order; and if they dump alike, the one of the less verbose level
shows what the other does without the records that its level hides. -/
theorem switches_leave_program_alone {left right : List String} {settings settings' : Settings}
    (first : Request.ofArguments left = .ok (.run settings))
    (second : Request.ofArguments right = .ok (.run settings'))
    (program : settings.program = settings'.program) (folder : Folder) :
    ((∃ limit outcome, run limit folder left = some outcome) ↔
      ∃ limit outcome, run limit folder right = some outcome) ∧
    ∀ limit limit' outcome outcome', run limit folder left = some outcome →
      run limit' folder right = some outcome' →
      outcome.exitCode = outcome'.exitCode ∧
      (∃ values : List Byte, outcome.lines = values.map valueLine ∧
        outcome'.lines = values.map valueLine) ∧
      (settings.dump = settings'.dump → settings.level.rank ≤ settings'.level.rank →
        outcome.output = outcome'.output.filter (·.shownAt settings.level)) := by
  simp only [run_of_request first, run_of_request second, ← program]
  generalize folder.read settings.program = contents
  refine ⟨⟨?_, ?_⟩, ?_⟩
  · rintro ⟨limit, outcome, ended⟩
    obtain ⟨account, ends, -⟩ := endsWith_of_session ended
    obtain ⟨account', ends', -⟩ := ends.transfer program
    obtain ⟨limit', ended'⟩ := session_of_endsWith ends'
    exact ⟨limit', _, ended'⟩
  · rintro ⟨limit, outcome, ended⟩
    obtain ⟨account, ends, -⟩ := endsWith_of_session ended
    obtain ⟨account', ends', -⟩ := ends.transfer program.symm
    obtain ⟨limit', ended'⟩ := session_of_endsWith ends'
    exact ⟨limit', _, ended'⟩
  · intro limit limit' outcome outcome' ended ended'
    obtain ⟨account, ends, rfl⟩ := endsWith_of_session ended
    obtain ⟨account', ends', failure, values⟩ := ends.transfer program
    obtain ⟨limit'', ended''⟩ := session_of_endsWith ends'
    cases session_unique ended' ended''
    refine ⟨?_, ⟨account.values, lines_shownAt _ account, ?_⟩, ?_⟩
    · simp only [Account.shownAt, failure]
    · rw [lines_shownAt, values]
    · intro dump verbosity
      obtain ⟨_, shared⟩ := session_of_endsWith (ends.of_same_dump program dump)
      rw [session_unique ended' shared]
      exact shownAt_eq_filter verbosity account

/-- A program that prints and then names a register that does not exist, run quietly by the clock
and verbosely without it. -/
theorem verbose_run_of_faulting_program :
    let folder : Folder := ⟨[("p", .file "PRN 7\nPOP 9".toUTF8)]⟩
    let report := ["Execution of `p` failed (PC:02 FL:--- R:[00, 00, 00, 00, 00, 00, 00, F4])",
      "invalid register `R9` at 0x02"]
    run 5 folder ["ls8", "-q", "-c", "5", "p"] = some ⟨1, [.line "244", .failure report], []⟩ ∧
      ∃ limit outcome, run limit folder ["ls8", "-v", "p"] = some outcome ∧
        outcome.exitCode = 1 ∧ outcome.lines = ["244"] ∧
        outcome.output.filter (·.shownAt .warn) = [.line "244", .failure report] := by
  intro folder report
  have ended : run 5 folder ["ls8", "-q", "-c", "5", "p"] =
      some ⟨1, [.line "244", .failure report], []⟩ := by decide +kernel
  have first : Request.ofArguments ["ls8", "-q", "-c", "5", "p"] =
      .ok (.run ⟨"p", some 5, false, .warn⟩) := rfl
  have second : Request.ofArguments ["ls8", "-v", "p"] =
      .ok (.run ⟨"p", none, false, .debug⟩) := rfl
  obtain ⟨both, agree⟩ := switches_leave_program_alone first second rfl folder
  obtain ⟨limit, outcome, ended'⟩ := both.mp ⟨5, _, ended⟩
  obtain ⟨exit, ⟨values, lines, lines'⟩, cut⟩ := agree 5 limit _ outcome ended ended'
  exact ⟨ended, limit, outcome, ended', exit.symm, lines'.trans lines.symm,
    (cut rfl (by decide)).symm⟩

end ByteMachine.Host
