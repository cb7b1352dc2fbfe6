import ByteMachine.CommandLine.Settings
import ByteMachine.Proofs.CommandLine.Spelling
import ByteMachine.Proofs.Source.Number

/-! Command lines mean what they spell. A choice of settings is spelled by every line that gives its
switches once each, in any order and grouping, and names its program somewhere among them; all of
these lines make the same request. With the switch for help anywhere among the others the request
is for help. -/
namespace ByteMachine.CommandLine

/-- What a command line can ask for. A clock period is at most the largest number of sixty-four
bits. -/
structure Choice where
  program : String
  clock : Option UInt64
  dump : Bool
  verbose : Bool
  quiet : Bool
  help : Bool
  deriving DecidableEq, Repr

namespace Choice

variable {choice : Choice} {period : String} {given : List Occurrence} {free words : List String}

def settings (choice : Choice) : Settings where
  program := choice.program
  clock := choice.clock.map (·.toNat)
  dump := choice.dump
  level :=
    if choice.verbose then .debug
    else if choice.quiet && !choice.dump then .warn
    else .info

def request (choice : Choice) : Request :=
  if choice.help then .help else .run choice.settings

def chooses (choice : Choice) : Switch → Bool
  | .clock => choice.clock.isSome
  | .dump => choice.dump
  | .verbose => choice.verbose
  | .quiet => choice.quiet
  | .help => choice.help

/-- A switch as it is given, with a text for the period if it is the clock. -/
def occurrence (period : String) (switch : Switch) : Occurrence :=
  ⟨switch, if switch.takesArgument then some period else none⟩

/-- The switches of a choice, each of them once. -/
def occurrences (choice : Choice) (period : String) : List Occurrence :=
  (Switch.all.filter choice.chooses).map (occurrence period)

/-- The words give the switches of a choice in some order, and name its program. The period is
written in decimal, with a sign and with zeros in front of it at will. -/
def Spelled (choice : Choice) (words : List String) : Prop :=
  ∃ period given, Line words given [choice.program] ∧ given.Perm (choice.occurrences period) ∧
    ∀ n ∈ choice.clock, Number.Numeral 10 period.toList n.toNat

theorem filter_occurrences (choice : Choice) (period : String) (switch : Switch) :
    (choice.occurrences period).filter (·.switch == switch) =
      if choice.chooses switch then [occurrence period switch] else [] := by
  have single : Switch.all.filter (· == switch) = [switch] := by
    cases switch <;> rfl
  have same : ((fun o : Occurrence => o.switch == switch) ∘ occurrence period) = (· == switch) :=
    rfl
  rw [occurrences, List.filter_map, same, List.filter_filter]
  simp only [Bool.and_comm _ (choice.chooses _)]
  rw [← List.filter_filter, single]
  simp only [List.filter_singleton, Bool.cond_eq_ite]
  split <;> rfl

section Scanned

variable (perm : given.Perm (choice.occurrences period))

include perm

/-- Each switch is given once at most, so the order in which they are given does not matter. -/
theorem filter_given (switch : Switch) :
    given.filter (·.switch == switch) =
      if choice.chooses switch then [occurrence period switch] else [] := by
  have found := perm.filter (·.switch == switch)
  rw [filter_occurrences] at found
  split at found
  · rename_i chosen
    rw [if_pos chosen]
    exact List.perm_singleton.mp found
  · rename_i other
    rw [if_neg other]
    exact List.perm_nil.mp found

theorem count_eq (switch : Switch) :
    (Scan.mk given free).count switch = if choice.chooses switch then 1 else 0 := by
  rw [Scan.count, List.countP_eq_length_filter, filter_given perm]
  split <;> rfl

theorem has_eq (switch : Switch) : (Scan.mk given free).has switch = choice.chooses switch := by
  rw [Scan.has, count_eq perm]
  cases choice.chooses switch <;> rfl

theorem argument?_clock :
    (Scan.mk given free).argument? .clock = choice.clock.map fun _ => period := by
  rw [Scan.argument?, ← List.head?_filter, filter_given perm, chooses]
  cases choice.clock <;> rfl

theorem level_eq : Request.level (Scan.mk given free) = choice.settings.level := by
  simp only [Request.level, has_eq perm, settings, chooses]

theorem readClock_eq (numeral : ∀ n ∈ choice.clock, Number.Numeral 10 period.toList n.toNat) :
    Request.readClock (Scan.mk given free) = .ok choice.settings.clock := by
  rw [Request.readClock, argument?_clock perm, settings]
  cases chosen : choice.clock with
  | none => rfl
  | some n =>
    have fits : n.toNat ≤ 0xFFFFFFFFFFFFFFFF := Nat.le_of_lt_succ n.toNat_lt
    have read := (Number.readNumeral_eq_ok (by decide) (by decide)).mpr ⟨numeral n chosen, fits⟩
    simp only [Option.map_some, read]

theorem ofWords_eq (line : Line words given free) : Scan.ofWords words = .ok ⟨given, free⟩ := by
  have once : Switch.all.find? (1 < (Scan.mk given free).count ·) = none := by
    rw [List.find?_eq_none]
    intro switch _
    rw [count_eq perm]
    split <;> simp
  refine bind_eq_ok.mpr ⟨_, line.read_eq, ?_⟩
  rw [once]
  rfl

end Scanned

theorem ofArguments_eq (spelled : choice.Spelled words) (name : String) :
    Request.ofArguments (name :: words) = .ok choice.request := by
  obtain ⟨period, given, line, perm, numeral⟩ := spelled
  rw [Request.ofArguments, List.tail_cons, ofWords_eq perm line]
  simp only [has_eq perm, readClock_eq perm numeral, level_eq perm, request, chooses]
  split <;> rfl

theorem occurrences_help (period : String) (unhelped : choice.help = false) :
    { choice with help := true }.occurrences period =
      choice.occurrences period ++ alone [.help] := by
  have others : Switch.all = [.clock, .dump, .verbose, .quiet] ++ [.help] := rfl
  have none : [Switch.help].filter choice.chooses = [] :=
    List.filter_cons_of_neg (Bool.eq_false_iff.mp unhelped)
  rw [occurrences, occurrences, others, List.filter_append, List.filter_append, none,
    List.append_nil, List.map_append]
  rfl

theorem gives_help {word : String} (help : word = "-h" ∨ word = "--help") :
    Gives [word] (alone [.help]) := by
  rcases help with rfl | rfl
  · exact @Gives.letters [.help] (List.cons_ne_nil _ _) (List.forall_mem_singleton.mpr rfl)
  · exact @Gives.name .help rfl

/-- With the switch for help among the others a line spells the choice that asks for help as
well. -/
theorem Spelled.insert_help {front back : List String} (spelled : choice.Spelled (front ++ back))
    (unhelped : choice.help = false) {word : String} (help : word = "-h" ∨ word = "--help")
    (before : "--" ∉ front) (settled : ¬ Awaits front) :
    { choice with help := true }.Spelled (front ++ word :: back) := by
  obtain ⟨period, given, line, perm, numeral⟩ := spelled
  obtain ⟨given', line', added⟩ := line.insert before settled (gives_help help)
  refine ⟨period, given', line', ?_, numeral⟩
  rw [occurrences_help period unhelped]
  calc given'.Perm (⟨.help, none⟩ :: given) := added
    List.Perm _ (⟨.help, none⟩ :: choice.occurrences period) := perm.cons _
    List.Perm _ (choice.occurrences period ++ alone [.help]) :=
      (List.perm_append_singleton _ _).symm

/-- A line that spells a choice requests its settings, or help if that is chosen; and help it
requests as well once the switch for it is put anywhere among the other words, but not behind two
dashes and not where an argument is awaited. -/
theorem spelled_choice_is_requested (spelled : choice.Spelled words) (name : String) :
    Request.ofArguments (name :: words) = .ok choice.request ∧
    ∀ front back help, choice.help = false → words = front ++ back →
      help = "-h" ∨ help = "--help" → "--" ∉ front → ¬ Awaits front →
      Request.ofArguments (name :: (front ++ help :: back)) = .ok .help := by
  refine ⟨ofArguments_eq spelled name, ?_⟩
  rintro front back word unhelped rfl help before settled
  exact ofArguments_eq (spelled.insert_help unhelped help before settled) name

/-- Two switches in one word, a period with a sign and zeros, and a program that looks like a
switch. -/
theorem grouped_choice_is_requested :
    let choice : Choice := ⟨"-x", some 7, true, true, true, false⟩
    choice.Spelled ["-vd", "-c", "+007", "--quiet", "--", "-x"] ∧
    Request.ofArguments ["ls8", "-vd", "-c", "+007", "--quiet", "--", "-x"] =
      .ok (.run ⟨"-x", some 7, true, .debug⟩) ∧
    Request.ofArguments ["ls8", "-vd", "--help", "-c", "+007", "--quiet", "--", "-x"] =
      .ok .help := by
  intro choice
  have line : Line ["-vd", "-c", "+007", "--quiet", "--", "-x"]
      [⟨.verbose, none⟩, ⟨.dump, none⟩, ⟨.clock, some "+007"⟩, ⟨.quiet, none⟩] ["-x"] :=
    .switches (@Gives.letters [.verbose, .dump] (by decide) (by decide)) <|
      .switches (@Gives.lettersApart [] .clock (by decide) rfl "+007") <|
        .switches (@Gives.name .quiet rfl) (.terminated ["-x"])
  have digits : Number.Writes 10 "007".toList 7 :=
    ⟨[0, 0, 7], .cons ⟨by decide, .inl rfl⟩ (.cons ⟨by decide, .inl rfl⟩
      (.cons ⟨by decide, .inl rfl⟩ .nil)), by decide⟩
  have spelled : choice.Spelled ["-vd", "-c", "+007", "--quiet", "--", "-x"] := by
    refine ⟨"+007", _, line, by decide, ?_⟩
    rintro n ⟨⟩
    exact .signed nofun digits
  obtain ⟨request, help⟩ := spelled_choice_is_requested spelled "ls8"
  refine ⟨spelled, request, help ["-vd"] _ "--help" rfl rfl (.inr rfl) (by decide) ?_⟩
  intro awaits
  obtain ⟨word, switch, ⟨⟩, takes, ends⟩ := awaits.exists_switch
  cases switch with
  | clock => exact absurd ends (by decide)
  | dump | verbose | quiet | help => contradiction

end Choice

end ByteMachine.CommandLine
