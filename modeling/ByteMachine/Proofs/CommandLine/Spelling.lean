import ByteMachine.CommandLine.Scan
import ByteMachine.Proofs.Except

/-! The ways to write a command line. Switches are given by their letters, several of them in one
word, or by their names; an argument is the rest of the word or else the next word, whatever that
looks like. Switches and free words stand in any order until two dashes, which make every word
behind them free. Each such line is scanned as what it gives, and one more switch finds a place
wherever no argument is awaited. -/
namespace ByteMachine.CommandLine

namespace Switch

/-- The letters of switches that share a word. -/
def letters (switches : List Switch) : String := String.ofList (switches.map letter)

theorem ofLetter?_letter (switch : Switch) : ofLetter? switch.letter = some switch := by
  cases switch <;> rfl

theorem ofName?_name (switch : Switch) : ofName? switch.name.toList = some switch := by
  cases switch <;> rfl

theorem letter_ne_dash (switch : Switch) : switch.letter ≠ '-' := by
  cases switch <;> decide

end Switch

open Switch

/-- Switches that are given without an argument. -/
def alone (switches : List Switch) : List Occurrence := switches.map (⟨·, none⟩)

/-- The word or the two words that give some switches. Only the last letter of a word may be that of
a switch with an argument. -/
inductive Gives : List String → List Occurrence → Prop where
  | letters {flags : List Switch} (nonempty : flags ≠ [])
      (plain : ∀ flag ∈ flags, flag.takesArgument = false) :
      Gives ["-" ++ letters flags] (alone flags)
  | lettersJoined {flags : List Switch} {last : Switch} {text : String}
      (plain : ∀ flag ∈ flags, flag.takesArgument = false) (takes : last.takesArgument = true)
      (nonempty : text ≠ "") :
      Gives ["-" ++ letters (flags ++ [last]) ++ text] (alone flags ++ [⟨last, some text⟩])
  | lettersApart {flags : List Switch} {last : Switch}
      (plain : ∀ flag ∈ flags, flag.takesArgument = false) (takes : last.takesArgument = true)
      (text : String) :
      Gives ["-" ++ letters (flags ++ [last]), text] (alone flags ++ [⟨last, some text⟩])
  | name {flag : Switch} (plain : flag.takesArgument = false) :
      Gives ["--" ++ flag.name] (alone [flag])
  | nameJoined {switch : Switch} (takes : switch.takesArgument = true) (text : String) :
      Gives ["--" ++ switch.name ++ "=" ++ text] [⟨switch, some text⟩]
  | nameApart {switch : Switch} (takes : switch.takesArgument = true) (text : String) :
      Gives ["--" ++ switch.name, text] [⟨switch, some text⟩]

/-- The words of a line, with the switches that they give and the free words among them. -/
inductive Line : List String → List Occurrence → List String → Prop where
  | nil : Line [] [] []
  | switches {words given rest more free} (gives : Gives words given) (line : Line rest more free) :
      Line (words ++ rest) (given ++ more) free
  | free {word rest given free} (plain : word = "-" ∨ word.toList.head? ≠ some '-')
      (line : Line rest given free) : Line (word :: rest) given (word :: free)
  | terminated (free : List String) : Line ("--" :: free) [] free

section Letters

variable {flags : List Switch} (plain : ∀ flag ∈ flags, flag.takesArgument = false)

include plain

theorem readLetters_append {rest : List Char} {given : List Occurrence} {pending : Option Pending}
    (read : readLetters rest = .ok (given, pending)) :
    readLetters (flags.map letter ++ rest) = .ok (alone flags ++ given, pending) := by
  induction flags with
  | nil => exact read
  | cons flag flags ih =>
    obtain ⟨first, others⟩ := List.forall_mem_cons.mp plain
    simp only [List.map_cons, List.cons_append, readLetters, ofLetter?_letter, first, ih others]
    rfl

theorem readLetters_flags : readLetters (flags.map letter) = .ok (alone flags, none) := by
  have read := readLetters_append plain (show readLetters [] = .ok ([], none) from rfl)
  rwa [List.append_nil, List.append_nil] at read

theorem readLetters_joined {last : Switch} (takes : last.takesArgument = true) {text : List Char}
    (nonempty : text ≠ []) :
    readLetters (flags.map letter ++ last.letter :: text) =
      .ok (alone flags ++ [⟨last, some (String.ofList text)⟩], none) := by
  apply readLetters_append plain
  simp [readLetters, ofLetter?_letter, takes, nonempty]

theorem readLetters_apart {last : Switch} (takes : last.takesArgument = true) :
    readLetters (flags.map letter ++ [last.letter]) =
      .ok (alone flags, some ⟨last, last.letter.toString⟩) := by
  have single : readLetters [last.letter] = .ok ([], some ⟨last, last.letter.toString⟩) := by
    simp [readLetters, ofLetter?_letter, takes]
  have read := readLetters_append plain single
  rwa [List.append_nil] at read

end Letters

namespace Word

theorem ofChars_short {letter : Char} (other : letter ≠ '-') (letters : List Char) :
    ofChars ('-' :: letter :: letters) = short (letter :: letters) := by
  unfold ofChars
  split <;> simp_all

theorem ofChars_free {word : List Char} (plain : word = ['-'] ∨ word.head? ≠ some '-') :
    ofChars word = free := by
  unfold ofChars
  split <;> simp_all

theorem ofChars_letters {switches : List Switch} (nonempty : switches ≠ []) (text : String) :
    ofChars ("-" ++ letters switches ++ text).toList =
      short (switches.map letter ++ text.toList) := by
  obtain ⟨first, switches, rfl⟩ := List.exists_cons_of_ne_nil nonempty
  simp only [letters, String.toList_append, String.toList_ofList]
  exact ofChars_short first.letter_ne_dash _

theorem ofChars_name (switch : Switch) :
    ofChars ("--" ++ switch.name).toList = long switch.name.toList none := by
  cases switch <;> rfl

theorem ofChars_nameJoined (switch : Switch) (text : String) :
    ofChars ("--" ++ switch.name ++ "=" ++ text).toList =
      long switch.name.toList (some text.toList) := by
  simp only [String.toList_append]
  cases switch <;> rfl

end Word

namespace Scan

variable {word : String} {words rest free : List String} {given more : List Occurrence}
variable {pending : Option Pending} {scan : Scan}

theorem give_give : (scan.give more).give given = scan.give (given ++ more) :=
  congrArg (Scan.mk · scan.free) (List.append_assoc _ _ _).symm

theorem read_pending (tail : read none rest = .ok scan) (waits : Pending) (text : String) :
    read (some waits) (text :: rest) = .ok (scan.give [⟨waits.switch, some text⟩]) := by
  rw [read, tail]
  rfl

theorem read_short {letters : List Char} (short : Word.ofChars word.toList = .short letters)
    (known : readLetters letters = .ok (given, pending)) (tail : read pending rest = .ok scan) :
    read none (word :: rest) = .ok (scan.give given) := by
  simp only [read, short, known]
  exact congrArg (Except.map (give given)) tail

theorem read_long {name : List Char} {value : Option (List Char)}
    (long : Word.ofChars word.toList = .long name value)
    (known : readLong name value = .ok (given, pending)) (tail : read pending rest = .ok scan) :
    read none (word :: rest) = .ok (scan.give given) := by
  simp only [read, long, known]
  exact congrArg (Except.map (give given)) tail

theorem read_gives (gives : Gives words given) (tail : read none rest = .ok scan) :
    read none (words ++ rest) = .ok (scan.give given) := by
  cases gives with
  | @letters flags nonempty plain =>
    have short := Word.ofChars_letters nonempty ""
    rw [String.append_empty, String.toList_empty, List.append_nil] at short
    exact read_short short (readLetters_flags plain) tail
  | @lettersJoined flags last text plain takes nonempty =>
    have short := Word.ofChars_letters (List.concat_ne_nil last flags) text
    rw [List.map_append, List.append_assoc] at short
    have known := readLetters_joined plain takes (mt String.toList_eq_nil_iff.mp nonempty)
    rw [String.ofList_toList] at known
    exact read_short short known tail
  | @lettersApart flags last plain takes text =>
    have short := Word.ofChars_letters (List.concat_ne_nil last flags) ""
    rw [String.append_empty, String.toList_empty, List.append_nil, List.map_append] at short
    have taken := read_short short (readLetters_apart plain takes) (read_pending tail _ text)
    rwa [give_give] at taken
  | @name flag plain =>
    refine read_long (Word.ofChars_name flag) ?_ tail
    simp [readLong, ofName?_name, plain, alone]
  | @nameJoined switch takes text =>
    refine read_long (Word.ofChars_nameJoined switch text) ?_ tail
    simp [readLong, ofName?_name, takes]
  | @nameApart switch takes text =>
    have waits := read_pending tail ⟨switch, switch.name⟩ text
    have taken := read_long (Word.ofChars_name switch)
      (by simp [readLong, ofName?_name, takes] : readLong _ _ = .ok ([], _)) waits
    rwa [give_give] at taken

end Scan

/-- The last of the words waits for an argument. -/
def Awaits (words : List String) : Prop :=
  ∃ word text given, words.getLast? = some word ∧ Gives [word, text] given

theorem Awaits.append {words : List String} (awaits : Awaits words) (front : List String) :
    Awaits (front ++ words) := by
  obtain ⟨word, text, given, last, gives⟩ := awaits
  refine ⟨word, text, given, ?_, gives⟩
  rw [List.getLast?_append, last, Option.some_or]

/-- The word that awaits an argument ends with the letter of a switch that takes one, or is the name
of such a switch. -/
theorem Awaits.exists_switch {words : List String} (awaits : Awaits words) :
    ∃ (word : String) (switch : Switch), words.getLast? = some word ∧
      switch.takesArgument = true ∧
      (word.toList.getLast? = some switch.letter ∨ word = "--" ++ switch.name) := by
  obtain ⟨word, text, given, last, gives⟩ := awaits
  generalize both : [word, text] = pair at gives
  cases gives with
  | letters | lettersJoined | name | nameJoined => simp at both
  | @lettersApart flags switch plain takes text =>
    obtain ⟨rfl, _⟩ := List.cons.inj both
    refine ⟨_, switch, last, takes, .inl ?_⟩
    simp only [letters, String.toList_append, String.toList_ofList, List.map_append,
      ← List.append_assoc]
    exact List.getLast?_concat
  | @nameApart switch takes text =>
    obtain ⟨rfl, _⟩ := List.cons.inj both
    exact ⟨_, switch, last, takes, .inr rfl⟩

/-- Between the words that give some switches an argument is awaited. -/
theorem Gives.split {front back : List String} {given : List Occurrence}
    (gives : Gives (front ++ back) given) : front = [] ∨ back = [] ∨ Awaits front := by
  obtain ⟨word, alone⟩ | ⟨word, text, both⟩ : (∃ word, front ++ back = [word]) ∨
      ∃ word text, front ++ back = [word, text] := by
    generalize front ++ back = words at gives
    cases gives with
    | letters | lettersJoined | name | nameJoined => exact .inl ⟨_, rfl⟩
    | lettersApart | nameApart => exact .inr ⟨_, _, rfl⟩
  · rcases List.append_eq_singleton_iff.mp alone with ⟨rfl, _⟩ | ⟨_, rfl⟩
    · exact .inl rfl
    · exact .inr (.inl rfl)
  · rcases List.append_eq_cons_iff.mp both with ⟨rfl, _⟩ | ⟨front, rfl, tail⟩
    · exact .inl rfl
    · rcases List.append_eq_singleton_iff.mp tail.symm with ⟨rfl, _⟩ | ⟨_, rfl⟩
      · rw [both] at gives
        exact .inr (.inr ⟨word, text, given, rfl, gives⟩)
      · exact .inr (.inl rfl)

namespace Line

variable {word : String} {words free : List String} {given : List Occurrence} {added : Occurrence}

/-- A line is scanned as what it gives. -/
theorem read_eq (line : Line words given free) : Scan.read none words = .ok ⟨given, free⟩ := by
  induction line with
  | nil => rfl
  | switches gives line ih => exact Scan.read_gives gives ih
  | @free word rest given free plain line ih =>
    have alone : word.toList = ['-'] ∨ word.toList.head? ≠ some '-' :=
      plain.imp_left fun dash => congrArg String.toList dash
    simp only [Scan.read, Word.ofChars_free alone, ih]
    rfl
  | terminated free => rfl

theorem cons_gives (line : Line words given free) (gives : Gives [word] [added]) :
    Line (word :: words) (added :: given) free :=
  .switches gives line

/-- One more switch can be given anywhere but behind two dashes and where an argument is awaited. -/
theorem insert {front back : List String} (line : Line (front ++ back) given free)
    (before : "--" ∉ front) (settled : ¬ Awaits front) (gives : Gives [word] [added]) :
    ∃ given', Line (front ++ word :: back) given' free ∧ given'.Perm (added :: given) := by
  generalize whole : front ++ back = words at line
  induction line generalizing front with
  | nil =>
    obtain ⟨rfl, rfl⟩ := List.append_eq_nil_iff.mp whole
    exact ⟨_, nil.cons_gives gives, .refl _⟩
  | @switches words given rest more free gives' line ih =>
    obtain ⟨middle, rfl, rfl⟩ | ⟨middle, rfl, rfl⟩ := List.append_eq_append_iff.mp whole
    · rcases gives'.split with rfl | rfl | awaits
      · exact ⟨_, (switches gives' line).cons_gives gives, .refl _⟩
      · rw [List.append_nil] at gives'
        exact ⟨_, .switches gives' (line.cons_gives gives), List.perm_middle⟩
      · exact absurd awaits settled
    · obtain ⟨given', line', perm⟩ := ih (fun member => before (List.mem_append_right _ member))
        (fun awaits => settled (awaits.append words)) rfl
      refine ⟨given ++ given', ?_, (perm.append_left given).trans List.perm_middle⟩
      rw [List.append_assoc]
      exact .switches gives' line'
  | @free first rest given free plain line ih =>
    cases front with
    | nil =>
      obtain rfl : back = _ := whole
      exact ⟨_, (Line.free plain line).cons_gives gives, .refl _⟩
    | cons first front =>
      obtain ⟨rfl, tail⟩ := List.cons.inj whole
      obtain ⟨given', line', perm⟩ := ih (fun member => before (List.mem_cons_of_mem _ member))
        (fun awaits => settled (awaits.append [_])) tail
      exact ⟨given', .free plain line', perm⟩
  | terminated free =>
    cases front with
    | nil =>
      obtain rfl : back = _ := whole
      exact ⟨_, (terminated free).cons_gives gives, .refl _⟩
    | cons first front =>
      obtain ⟨rfl, tail⟩ := List.cons.inj whole
      exact absurd List.mem_cons_self before

end Line

end ByteMachine.CommandLine
