import ByteMachine.Proofs.Source.Language

/-! What can be wrong with a line by itself, apart from its reader. Every line either has one of the
forms of the language or one of the flaws below, and the flaw is the problem that is found in it.
That a byte finds no room is none of them, because it is not the fault of its line alone. -/
namespace ByteMachine.Source

open Text

/-- The first token that is no byte, and what is wrong with it. -/
inductive Refused : List (List Char) → Problem → Prop where
  | first {front token back values radix} (readable : Denote front values)
      (refused : Number.read 0xFF token = .error radix) :
      Refused (front ++ token :: back) (.invalidByte radix (String.ofList token))

theorem Refused.ne_nil {tokens : List (List Char)} {problem : Problem}
    (refused : Refused tokens problem) : tokens ≠ [] := by
  cases refused with
  | first => simp

/-- The flaws of a line without its comment and the blanks around it. A label may have a bad address
or one that the memory has not got; an instruction a name that nothing has, operands that are no
bytes or too many or too few of them; any other line a token that is no byte. -/
inductive Flawed (size : Nat) : List Char → Problem → Prop where
  | emptyLabel {text} (empty : trim text = []) : Flawed size (text ++ [':']) .emptyLabel
  | labelNumber {text radix} (nonempty : trim text ≠ [])
      (refused : Number.read 0xFFFF (trim text) = .error radix) :
      Flawed size (text ++ [':']) (.labelNumber radix)
  | labelOutside {text address} (number : Number.read 0xFFFF (trim text) = .ok address)
      (outside : size ≤ address) : Flawed size (text ++ [':']) (.labelOutside address)
  | unknownMnemonic {line name tokens} (unlabelled : ¬ [':'] <:+ line)
      (lettered : line.head?.any Char.isAlpha = true) (split : words line = name :: tokens)
      (unknown : ∀ opcode, ¬ Spells name opcode) :
      Flawed size line (.unknownMnemonic (String.ofList name))
  | operand {line name tokens opcode problem} (unlabelled : ¬ [':'] <:+ line)
      (lettered : line.head?.any Char.isAlpha = true) (split : words line = name :: tokens)
      (spelled : Spells name opcode) (refused : Refused tokens problem) : Flawed size line problem
  | operandCount {line name tokens opcode values} (unlabelled : ¬ [':'] <:+ line)
      (lettered : line.head?.any Char.isAlpha = true) (split : words line = name :: tokens)
      (spelled : Spells name opcode) (denoted : Denote tokens values) (some : values ≠ [])
      (wrong : values.length ≠ opcode.operandCount) :
      Flawed size line (.operandCount opcode.operandCount values.length (String.ofList line))
  | literal {line problem} (unlabelled : ¬ [':'] <:+ line)
      (unlettered : line.head?.any Char.isAlpha = false) (refused : Refused (words line) problem) :
      Flawed size line problem

/-- A list cannot be computed because of its first element that cannot. -/
theorem mapM_eq_error {ε α β : Type} {action : α → Except ε β} {inputs : List α} {fault : ε} :
    inputs.mapM action = .error fault ↔
      ∃ front input back results, inputs = front ++ input :: back ∧
        List.Forall₂ (fun input result => action input = .ok result) front results ∧
        action input = .error fault := by
  induction inputs with
  | nil => simp [pure, Except.pure]
  | cons first inputs ih =>
    simp only [List.mapM_cons, bind_eq_error, pure, Except.pure, reduceCtorEq, and_false,
      exists_false, or_false, ih]
    constructor
    · rintro (refused | ⟨result, computed, front, input, back, results, rfl, earlier, refused⟩)
      · exact ⟨[], first, inputs, [], rfl, .nil, refused⟩
      · exact ⟨first :: front, input, back, result :: results, rfl, .cons computed earlier, refused⟩
    · rintro ⟨front, input, back, results, listed, earlier, refused⟩
      cases earlier with
      | nil =>
        cases listed
        exact .inl refused
      | cons computed earlier =>
        cases listed
        exact .inr ⟨_, computed, _, input, back, _, rfl, earlier, refused⟩

namespace Statement

variable {size : Nat} {line text : List Char} {tokens : List (List Char)} {problem : Problem}

/-- What is wrong with a statement by itself. -/
def flaw? (size : Nat) : Statement → Option Problem
  | label (.ok address) => if address < size then none else some (.labelOutside address)
  | label (.error problem) | instruction _ (.error problem) => some problem
  | unknown name => some (.unknownMnemonic name)
  | bytes _ flaw => flaw
  | blank | instruction _ (.ok _) => none

/-- A statement has a flaw or a meaning, and not both. -/
theorem flaw?_eq_none_iff (statement : Statement) :
    statement.flaw? size = none ↔ ∃ meaning, statement.meaning? size = some meaning := by
  cases statement with
  | label address =>
    cases address with
    | error problem => simp [flaw?, meaning?]
    | ok address => by_cases inside : address < size <;> simp [flaw?, meaning?, inside]
  | instruction opcode operands => cases operands <;> simp [flaw?, meaning?]
  | bytes values flaw => cases flaw <;> simp [flaw?, meaning?]
  | blank | unknown => simp [flaw?, meaning?]

theorem readByte_eq_error {token : List Char} : readByte token = .error problem ↔
    ∃ radix, Number.read 0xFF token = .error radix ∧
      problem = .invalidByte radix (String.ofList token) := by
  unfold readByte
  cases Number.read 0xFF token <;> simp [eq_comm]

theorem mapM_readByte_eq_error :
    tokens.mapM readByte = .error problem ↔ Refused tokens problem := by
  simp only [mapM_eq_error, ← denote_iff, readByte_eq_error]
  constructor
  · rintro ⟨front, token, back, values, rfl, readable, radix, refused, rfl⟩
    exact .first readable refused
  · rintro ⟨readable, refused⟩
    exact ⟨_, _, _, _, rfl, readable, _, refused, rfl⟩

theorem readOperands_eq_error {opcode : Opcode} :
    readOperands opcode line tokens = .error problem ↔ Refused tokens problem ∨
      ∃ values, Denote tokens values ∧ values ≠ [] ∧ values.length ≠ opcode.operandCount ∧
        problem = .operandCount opcode.operandCount values.length (String.ofList line) := by
  simp only [readOperands, bind_eq_error, mapM_readByte_eq_error, mapM_eq_ok, ← denote_iff]
  refine or_congr_right (exists_congr fun values => and_congr_right fun _ => ?_)
  by_cases complete : values = [] ∨ values.length = opcode.operandCount
  · rw [if_pos (by simpa using complete), ← and_assoc, ← not_or]
    exact iff_of_false (by rintro ⟨⟩) fun flawed => flawed.1 complete
  · rw [if_neg (by simpa using complete), ← and_assoc, ← not_or, and_iff_right complete]
    change Except.error _ = Except.error _ ↔ _
    rw [Except.error.injEq, eq_comm]

/-- A list of bytes is read up to its first token that is none. -/
theorem flaw?_ofBytes :
    (ofBytes line).flaw? size = some problem ↔ Refused (words line) problem := by
  rw [← mapM_readByte_eq_error]
  change ((words line).map readByte).findSome? _ = some problem ↔ _
  induction words line with
  | nil => simp [pure, Except.pure]
  | cons token tokens ih =>
    rw [List.map_cons, List.findSome?_cons, List.mapM_cons]
    cases readByte token with
    | error refused => simp [bind, Except.bind]
    | ok value =>
      refine ih.trans ?_
      simp only [bind_eq_error, pure, Except.pure, reduceCtorEq, and_false, exists_false, or_false,
        false_or, Except.ok.injEq, exists_eq_left']

theorem flaw?_label : (label (readLabel text)).flaw? size = some problem ↔
    (text = [] ∧ problem = .emptyLabel) ∨
    (text ≠ [] ∧ ∃ radix, Number.read 0xFFFF text = .error radix ∧ problem = .labelNumber radix) ∨
    ∃ address, Number.read 0xFFFF text = .ok address ∧ size ≤ address ∧
      problem = .labelOutside address := by
  unfold readLabel
  split
  · rename_i empty
    rw [List.isEmpty_iff.mp empty, read_nil]
    simp [flaw?, eq_comm]
  · rename_i nonempty
    have nonempty : text ≠ [] := by simpa using nonempty
    cases Number.read 0xFFFF text with
    | error radix => simp [flaw?, Except.mapError, nonempty, eq_comm]
    | ok address => simp [flaw?, Except.mapError, nonempty, eq_comm]

theorem flaw?_instruction {opcode : Opcode} {operands : Except Problem (List Byte)} :
    (instruction opcode operands).flaw? size = some problem ↔ operands = .error problem := by
  cases operands <;> simp [flaw?]

theorem flaw?_ofInstruction {name : List Char} (split : words line = name :: tokens) :
    (ofInstruction line).flaw? size = some problem ↔
      ((∀ opcode, ¬ Spells name opcode) ∧ problem = .unknownMnemonic (String.ofList name)) ∨
      ∃ opcode, Spells name opcode ∧ readOperands opcode line tokens = .error problem := by
  simp only [ofInstruction, split, List.headD_cons, List.tail_cons, ← ofName?_eq_some]
  cases known : Opcode.ofName? name with
  | none => simp [flaw?, eq_comm]
  | some opcode => simp [flaw?_instruction]

end Statement

variable {size : Nat} {line raw text : List Char} {problem : Problem}

theorem flawed_label : Flawed size (text ++ [':']) problem ↔
    (Statement.label (Statement.readLabel (trim text))).flaw? size = some problem := by
  rw [Statement.flaw?_label]
  constructor
  · intro flawed
    generalize labelled : text ++ [':'] = line at flawed
    cases flawed with
    | emptyLabel empty =>
      cases List.append_cancel_right labelled
      exact .inl ⟨empty, rfl⟩
    | labelNumber nonempty refused =>
      cases List.append_cancel_right labelled
      exact .inr (.inl ⟨nonempty, _, refused, rfl⟩)
    | labelOutside number outside =>
      cases List.append_cancel_right labelled
      exact .inr (.inr ⟨_, number, outside, rfl⟩)
    | unknownMnemonic unlabelled | operand unlabelled | operandCount unlabelled
    | literal unlabelled => exact absurd ⟨text, labelled⟩ unlabelled
  · rintro (⟨empty, rfl⟩ | ⟨nonempty, radix, refused, rfl⟩ | ⟨address, number, outside, rfl⟩)
    · exact .emptyLabel empty
    · exact .labelNumber nonempty refused
    · exact .labelOutside number outside

theorem isBlank_of_isAlpha {c : Char} (letter : c.isAlpha = true) : isBlank c = false := by
  have ranges : (65 ≤ c.toNat ∧ c.toNat ≤ 90) ∨ (97 ≤ c.toNat ∧ c.toNat ≤ 122) := by
    change (decide ('A'.val ≤ c.val ∧ c.val ≤ 'Z'.val) ||
      decide ('a'.val ≤ c.val) && decide (c.val ≤ 'z'.val)) = true at letter
    simpa [UInt32.le_iff_toNat_le] using letter
  simp [isBlank]
  omega

/-- A line that begins with a letter has a first word. -/
theorem words_of_lettered (lettered : line.head?.any Char.isAlpha = true) :
    ∃ name tokens, words line = name :: tokens := by
  cases line with
  | nil => contradiction
  | cons c line =>
    have solid : isBlank c = false := isBlank_of_isAlpha lettered
    cases pieces : line.splitOnP isBlank with
    | nil => exact absurd pieces (List.splitOnP_ne_nil _ line)
    | cons first rest =>
      refine ⟨c :: first, rest.filter (!·.isEmpty), ?_⟩
      rw [words, List.splitOnP_cons_eq_if_modifyHead, solid, pieces]
      rfl

section Unlabelled

variable (unlabelled : ¬ [':'] <:+ line)

include unlabelled

theorem flawed_instruction (lettered : line.head?.any Char.isAlpha = true) :
    Flawed size line problem ↔ (Statement.ofInstruction line).flaw? size = some problem := by
  obtain ⟨name, tokens, split⟩ := words_of_lettered lettered
  rw [Statement.flaw?_ofInstruction split]
  simp only [Statement.readOperands_eq_error]
  constructor
  · intro flawed
    cases flawed with
    | @emptyLabel text | @labelNumber text | @labelOutside text =>
      exact absurd ⟨text, rfl⟩ unlabelled
    | unknownMnemonic _ _ split' unknown =>
      cases split.symm.trans split'
      exact .inl ⟨unknown, rfl⟩
    | operand _ _ split' spelled refused =>
      cases split.symm.trans split'
      exact .inr ⟨_, spelled, .inl refused⟩
    | operandCount _ _ split' spelled denoted some wrong =>
      cases split.symm.trans split'
      exact .inr ⟨_, spelled, .inr ⟨_, denoted, some, wrong, rfl⟩⟩
    | literal _ unlettered => exact absurd (lettered.symm.trans unlettered) Bool.noConfusion
  · rintro (⟨unknown, rfl⟩ | ⟨opcode, spelled, refused | ⟨values, denoted, some, wrong, rfl⟩⟩)
    · exact .unknownMnemonic unlabelled lettered split unknown
    · exact .operand unlabelled lettered split spelled refused
    · exact .operandCount unlabelled lettered split spelled denoted some wrong

theorem flawed_bytes (unlettered : line.head?.any Char.isAlpha = false) :
    Flawed size line problem ↔ (Statement.ofBytes line).flaw? size = some problem := by
  rw [Statement.flaw?_ofBytes]
  constructor
  · intro flawed
    cases flawed with
    | @emptyLabel text | @labelNumber text | @labelOutside text =>
      exact absurd ⟨text, rfl⟩ unlabelled
    | unknownMnemonic _ lettered | operand _ lettered | operandCount _ lettered =>
      exact absurd (lettered.symm.trans unlettered) Bool.noConfusion
    | literal _ _ refused => exact refused
  · exact .literal unlabelled unlettered

end Unlabelled

theorem not_flawed_nil : ¬ Flawed size [] problem := by
  intro flawed
  generalize blank : ([] : List Char) = line at flawed
  cases flawed with
  | emptyLabel | labelNumber | labelOutside => simp at blank
  | unknownMnemonic _ lettered | operand _ lettered | operandCount _ lettered =>
    rw [← blank] at lettered
    contradiction
  | literal _ _ refused =>
    rw [← blank] at refused
    exact refused.ne_nil rfl

/-- The flaw of a line is the problem that its statement has by itself. -/
theorem flawed_iff : Flawed size (trim (uncommented raw)) problem ↔
    (Statement.ofLine raw).flaw? size = some problem := by
  simp only [Statement.ofLine]
  generalize trim (uncommented raw) = line
  by_cases blank : line = []
  · subst blank
    rw [if_pos List.isEmpty_nil]
    exact iff_of_false not_flawed_nil (by rintro ⟨⟩)
  · by_cases labelled : [':'] <:+ line
    · obtain ⟨text, rfl⟩ := labelled
      rw [if_neg (by simp), if_pos (by simp), flawed_label, List.dropLast_concat]
    · have other : line.getLast? ≠ some ':' := fun last =>
        labelled ⟨_, List.dropLast_append_getLast? _ last⟩
      rw [if_neg (by simpa using blank), if_neg other]
      split
      · rename_i lettered
        exact flawed_instruction labelled lettered
      · rename_i unlettered
        exact flawed_bytes labelled (by simpa using unlettered)

/-- A line has a flaw exactly if it has none of the forms. -/
theorem flawed_iff_meaningless : (∃ problem, Flawed size (trim (uncommented raw)) problem) ↔
    ¬ ∃ meaning, Means size (trim (uncommented raw)) meaning := by
  simp only [flawed_iff, means_iff]
  rw [← Statement.flaw?_eq_none_iff, ← Option.isSome_iff_exists, Option.isSome_iff_ne_none]

end ByteMachine.Source
