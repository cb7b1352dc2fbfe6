import ByteMachine.Source.Statement
import ByteMachine.Proofs.Except
import Mathlib.Data.List.Forall2

/-! The language of program texts, apart from its reader: the forms that a line can have and what a
line of each form contributes to the memory. Reading a line gives a statement that can be carried
out exactly if the line has one of the forms. -/
namespace ByteMachine.Source

open Text

/-- What a line contributes: a position for the bytes that follow, or bytes of its own. -/
inductive Meaning where
  | position (address : Nat)
  | bytes (values : List Byte)
  deriving DecidableEq, Repr

/-- A mnemonic with each of its letters large or small. -/
def Spells (name : List Char) (opcode : Opcode) : Prop :=
  List.Forall₂ (fun c letter => c = letter ∨ c = letter.toLower) name opcode.mnemonic.toList

/-- Numbers that fit into a byte each. -/
def Denote (tokens : List (List Char)) (values : List Byte) : Prop :=
  List.Forall₂ (fun token value => Number.read 0xFF token = .ok value.toNat) tokens values

/-- The forms of a line without its comment and the blanks around it. Each is tried after those
before it. -/
inductive Means (size : Nat) : List Char → Meaning → Prop where
  | blank : Means size [] (.bytes [])
  | label {text address} (number : Number.read 0xFFFF (trim text) = .ok address)
      (inside : address < size) : Means size (text ++ [':']) (.position address)
  | instruction {line name tokens opcode values} (unlabelled : ¬ [':'] <:+ line)
      (lettered : line.head?.any Char.isAlpha = true) (split : words line = name :: tokens)
      (spelled : Spells name opcode) (denoted : Denote tokens values)
      (complete : values = [] ∨ values.length = opcode.operandCount) :
      Means size line (.bytes (opcode.byte :: values))
  | bytes {line values} (nonblank : line ≠ []) (unlabelled : ¬ [':'] <:+ line)
      (unlettered : line.head?.any Char.isAlpha = false) (denoted : Denote (words line) values) :
      Means size line (.bytes values)

section Numbers

theorem readDigits_le {base bound value result : Nat} {text : List Char} (small : value ≤ bound)
    (read : Number.readDigits base bound value text = .ok result) : result ≤ bound := by
  induction text generalizing value with
  | nil =>
    cases read
    exact small
  | cons c rest ih =>
    rw [Number.readDigits] at read
    split at read
    · contradiction
    · split at read
      · exact ih ‹_› read
      · contradiction

theorem readNumeral_le {base bound result : Nat} {text : List Char}
    (read : Number.readNumeral base bound text = .ok result) : result ≤ bound := by
  unfold Number.readNumeral at read
  split at read
  · contradiction
  · exact readDigits_le (Nat.zero_le _) read
  · exact readDigits_le (Nat.zero_le _) read

theorem read_le {bound result : Nat} {token : List Char}
    (read : Number.read bound token = .ok result) : result ≤ bound := by
  unfold Number.read at read
  split at read
  · exact readNumeral_le (mapError_eq_ok.mp read)
  · exact readNumeral_le (mapError_eq_ok.mp read)

theorem read_nil (bound : Nat) : Number.read bound [] = .error .decimal := rfl

theorem readByte_eq_ok {token : List Char} {value : Byte} :
    Statement.readByte token = .ok value ↔ Number.read 0xFF token = .ok value.toNat := by
  unfold Statement.readByte
  cases read : Number.read 0xFF token with
  | error radix => simp
  | ok number =>
    have small : number < 256 := Nat.lt_succ_of_le (read_le read)
    simp only [Except.ok.injEq]
    constructor
    · rintro rfl
      exact (Nat.mod_eq_of_lt small).symm
    · rintro rfl
      exact UInt8.ofNat_toNat

end Numbers

/-- Only letters are changed into capitals, and none into the capital of another. The small letters
are among the ASCII characters, so it is enough to look through these. -/
theorem toUpper_cases (c : Char) : c.toUpper = c ∨
    c.isAlpha = true ∧ c.toUpper.isAlpha = true ∧ c.toUpper.toLower = c := by
  by_cases ascii : c.toNat < 128
  · have table : ∀ n < 128, (Char.ofNat n).toUpper = Char.ofNat n ∨
        (Char.ofNat n).isAlpha = true ∧ (Char.ofNat n).toUpper.isAlpha = true ∧
          (Char.ofNat n).toUpper.toLower = Char.ofNat n := by
      decide +kernel
    have entry := table c.toNat ascii
    rwa [Char.ofNat_toNat] at entry
  · left
    apply dif_neg
    rintro ⟨-, small⟩
    exact ascii (Nat.lt_of_le_of_lt (UInt32.le_iff_toNat_le.mp small) (by decide))

/-- A letter that is a capital, in both ways of writing it. -/
def Capital (letter : Char) : Prop :=
  letter.toUpper = letter ∧ letter.toLower.toUpper = letter

/-- Only a capital letter and its small one are made into the capital letter. -/
theorem toUpper_eq_iff {c letter : Char} (capital : Capital letter) :
    c.toUpper = letter ↔ c = letter ∨ c = letter.toLower := by
  constructor
  · rintro rfl
    obtain same | ⟨_, _, back⟩ := toUpper_cases c
    · exact .inl same.symm
    · exact .inr back.symm
  · rintro (rfl | rfl)
    · exact capital.1
    · exact capital.2

/-- A list is computed element by element. -/
theorem mapM_eq_ok {ε α β : Type} {action : α → Except ε β} {inputs : List α} {results : List β} :
    inputs.mapM action = .ok results ↔
      List.Forall₂ (fun input result => action input = .ok result) inputs results := by
  induction inputs generalizing results with
  | nil =>
    rw [List.mapM_nil, List.forall₂_nil_left_iff]
    exact ⟨fun h => (Except.ok.inj h).symm, fun h => congrArg Except.ok h.symm⟩
  | cons input inputs ih =>
    simp only [List.mapM_cons, bind_eq_ok, List.forall₂_cons_left_iff, ih]
    constructor
    · rintro ⟨first, computed, rest, computed', collected⟩
      exact ⟨first, rest, computed, computed', (Except.ok.inj collected).symm⟩
    · rintro ⟨first, rest, computed, computed', rfl⟩
      exact ⟨first, computed, rest, computed', rfl⟩

namespace Statement

/-- What a statement contributes to a memory of a size, if it can be carried out. -/
def meaning? (size : Nat) : Statement → Option Meaning
  | .blank => some (.bytes [])
  | .label (.ok address) => if address < size then some (.position address) else none
  | .instruction opcode (.ok operands) => some (.bytes (opcode.byte :: operands))
  | .bytes values none => some (.bytes values)
  | _ => none

variable {size : Nat} {line : List Char} {meaning : Meaning}

section Tokens

variable {tokens : List (List Char)} {values : List Byte}

theorem denote_iff : Denote tokens values ↔
    List.Forall₂ (fun token value => readByte token = .ok value) tokens values := by
  simp only [Denote, readByte_eq_ok]

theorem readOperands_eq_ok {opcode : Opcode} : readOperands opcode line tokens = .ok values ↔
    Denote tokens values ∧ (values = [] ∨ values.length = opcode.operandCount) := by
  simp only [readOperands, bind_eq_ok, mapM_eq_ok, ← denote_iff]
  constructor
  · rintro ⟨produced, denoted, checked⟩
    split at checked
    · rename_i complete
      cases checked
      exact ⟨denoted, by simpa using complete⟩
    · cases checked
  · rintro ⟨denoted, complete⟩
    refine ⟨values, denoted, if_pos ?_⟩
    simpa using complete

/-- Nothing is wrong with a list of readings exactly if they all succeeded. -/
theorem readings_flawless {readings : List (Except Problem Byte)} :
    (readings.takeWhile (·.isOk)).filterMap (·.toOption) = values ∧
      readings.findSome? (fun | .ok _ => none | .error problem => some problem) = none ↔
    readings = values.map .ok := by
  induction readings generalizing values with
  | nil => simp [eq_comm]
  | cons reading readings ih =>
    cases reading with
    | error problem => cases values <;> simp
    | ok value =>
      cases values with
      | nil => simp [Except.isOk, Except.toBool, Except.toOption]
      | cons first values =>
        rw [List.map_cons, List.cons.injEq, ← ih]
        simp [Except.isOk, Except.toBool, Except.toOption, and_assoc]

theorem ofBytes_eq : ofBytes line = .bytes values none ↔ Denote (words line) values := by
  have pointwise : Denote (words line) values ↔ (words line).map readByte = values.map .ok := by
    rw [denote_iff, ← List.forall₂_eq_eq_eq, List.forall₂_map_left_iff, List.forall₂_map_right_iff]
  rw [pointwise, ← readings_flawless]
  exact iff_of_eq (Statement.bytes.injEq ..)

end Tokens

theorem capital_mnemonic (opcode : Opcode) :
    ∀ letter ∈ opcode.mnemonic.toList, Capital letter := by
  have table : opcode.mnemonic.toList.all
      (fun letter => letter.toUpper == letter && letter.toLower.toUpper == letter) = true := by
    cases opcode <;> rfl
  intro letter member
  simpa [Capital] using List.all_eq_true.mp table letter member

/-- Both sides go letter by letter, so a spelling is what becomes the mnemonic in capitals. -/
theorem map_toUpper_iff {name mnemonic : List Char}
    (capital : ∀ letter ∈ mnemonic, Capital letter) :
    List.Forall₂ (fun c letter => c = letter ∨ c = letter.toLower) name mnemonic ↔
      name.map Char.toUpper = mnemonic := by
  induction mnemonic generalizing name with
  | nil => simp
  | cons letter mnemonic ih =>
    cases name with
    | nil => simp
    | cons c name =>
      have rest := @ih name fun other member => capital other (List.mem_cons_of_mem letter member)
      simp only [List.forall₂_cons, List.map_cons, List.cons.injEq, rest,
        toUpper_eq_iff (capital letter List.mem_cons_self)]

theorem ofName?_eq_some {name : List Char} {opcode : Opcode} :
    Opcode.ofName? name = some opcode ↔ Spells name opcode := by
  rw [Spells, map_toUpper_iff (capital_mnemonic opcode)]
  constructor
  · intro found
    have same := List.find?_some found
    exact (beq_iff_eq.mp same).symm
  · intro same
    rw [Opcode.ofName?, same]
    cases opcode <;> decide

theorem meaning?_label {text : List Char} : (label (readLabel text)).meaning? size = some meaning ↔
    ∃ address, Number.read 0xFFFF text = .ok address ∧ address < size ∧
      meaning = .position address := by
  unfold readLabel
  split
  · rename_i empty
    rw [List.isEmpty_iff.mp empty, read_nil]
    simp [meaning?]
  · cases Number.read 0xFFFF text with
    | error radix => simp [meaning?, Except.mapError]
    | ok address => simp [meaning?, Except.mapError, eq_comm]

theorem meaning?_instruction {opcode : Opcode} {operands : Except Problem (List Byte)} :
    (instruction opcode operands).meaning? size = some meaning ↔
      ∃ values, operands = .ok values ∧ meaning = .bytes (opcode.byte :: values) := by
  cases operands with
  | error problem => simp [meaning?]
  | ok values => simp [meaning?, eq_comm]

theorem meaning?_ofInstruction : (ofInstruction line).meaning? size = some meaning ↔
    ∃ name tokens opcode values, words line = name :: tokens ∧ Spells name opcode ∧
      Denote tokens values ∧ (values = [] ∨ values.length = opcode.operandCount) ∧
      meaning = .bytes (opcode.byte :: values) := by
  unfold ofInstruction
  cases split : words line with
  | nil => simp [meaning?, show Opcode.ofName? [] = none from rfl]
  | cons name tokens =>
    simp only [List.headD_cons, List.tail_cons, List.cons.injEq]
    cases known : Opcode.ofName? name with
    | none =>
      simp only [meaning?, reduceCtorEq, false_iff]
      rintro ⟨_, _, opcode, _, ⟨rfl, rfl⟩, spelled, _⟩
      rw [ofName?_eq_some.mpr spelled] at known
      contradiction
    | some opcode =>
      simp only [meaning?_instruction]
      constructor
      · rintro ⟨values, read, rfl⟩
        obtain ⟨denoted, complete⟩ := readOperands_eq_ok.mp read
        have spelled := ofName?_eq_some.mp known
        exact ⟨name, tokens, opcode, values, ⟨rfl, rfl⟩, spelled, denoted, complete, rfl⟩
      · rintro ⟨_, _, other, values, ⟨rfl, rfl⟩, spelled, denoted, complete, rfl⟩
        cases known.symm.trans (ofName?_eq_some.mpr spelled)
        exact ⟨values, readOperands_eq_ok.mpr ⟨denoted, complete⟩, rfl⟩

theorem meaning?_ofBytes : (ofBytes line).meaning? size = some meaning ↔
    ∃ values, Denote (words line) values ∧ meaning = .bytes values := by
  simp only [← ofBytes_eq]
  constructor
  · intro meant
    cases read : ofBytes line with
    | bytes values flaw =>
      rw [read] at meant
      cases flaw with
      | none => exact ⟨values, rfl, (Option.some.inj meant).symm⟩
      | some problem => contradiction
    | blank | label | instruction | unknown => cases read
  · rintro ⟨values, read, rfl⟩
    rw [read]
    rfl

end Statement

/-! The forms one by one, each with what decides about it. -/

variable {size : Nat} {line raw text : List Char} {meaning : Meaning}

theorem means_blank : Means size [] meaning ↔ meaning = .bytes [] := by
  constructor
  · intro means
    generalize empty : ([] : List Char) = line at means
    cases means with
    | blank => rfl
    | label number inside => simp at empty
    | instruction unlabelled lettered => simp [← empty] at lettered
    | bytes nonblank => exact absurd empty.symm nonblank
  · rintro rfl
    exact .blank

theorem means_label : Means size (text ++ [':']) meaning ↔
    ∃ address, Number.read 0xFFFF (trim text) = .ok address ∧ address < size ∧
      meaning = .position address := by
  constructor
  · intro means
    generalize labelled : text ++ [':'] = line at means
    cases means with
    | blank => simp at labelled
    | label number inside =>
      cases List.append_cancel_right labelled
      exact ⟨_, number, inside, rfl⟩
    | instruction unlabelled => exact absurd ⟨text, labelled⟩ unlabelled
    | bytes nonblank unlabelled => exact absurd ⟨text, labelled⟩ unlabelled
  · rintro ⟨address, number, inside, rfl⟩
    exact .label number inside

section Unlabelled

variable (unlabelled : ¬ [':'] <:+ line)

include unlabelled

theorem means_instruction (lettered : line.head?.any Char.isAlpha = true) :
    Means size line meaning ↔ ∃ name tokens opcode values, words line = name :: tokens ∧
      Spells name opcode ∧ Denote tokens values ∧
      (values = [] ∨ values.length = opcode.operandCount) ∧
      meaning = .bytes (opcode.byte :: values) := by
  constructor
  · intro means
    cases means with
    | blank => contradiction
    | @label text => exact absurd ⟨text, rfl⟩ unlabelled
    | instruction _ _ split spelled denoted complete =>
      exact ⟨_, _, _, _, split, spelled, denoted, complete, rfl⟩
    | bytes _ _ unlettered => exact absurd (lettered.symm.trans unlettered) Bool.noConfusion
  · rintro ⟨_, _, _, _, split, spelled, denoted, complete, rfl⟩
    exact .instruction unlabelled lettered split spelled denoted complete

theorem means_bytes (nonblank : line ≠ []) (unlettered : line.head?.any Char.isAlpha = false) :
    Means size line meaning ↔ ∃ values, Denote (words line) values ∧ meaning = .bytes values := by
  constructor
  · intro means
    cases means with
    | blank => contradiction
    | @label text => exact absurd ⟨text, rfl⟩ unlabelled
    | instruction _ lettered => exact absurd (lettered.symm.trans unlettered) Bool.noConfusion
    | bytes _ _ _ denoted => exact ⟨_, denoted, rfl⟩
  · rintro ⟨values, denoted, rfl⟩
    exact .bytes nonblank unlabelled unlettered denoted

end Unlabelled

/-- Reading a line gives a statement that means something exactly if the line has one of the forms,
and the meaning is that of the form. -/
theorem means_iff : Means size (trim (uncommented raw)) meaning ↔
    (Statement.ofLine raw).meaning? size = some meaning := by
  simp only [Statement.ofLine]
  generalize trim (uncommented raw) = line
  by_cases blank : line = []
  · subst blank
    rw [means_blank, if_pos List.isEmpty_nil]
    exact ⟨fun h => h ▸ rfl, fun h => (Option.some.inj h).symm⟩
  · by_cases labelled : [':'] <:+ line
    · obtain ⟨text, rfl⟩ := labelled
      rw [means_label, if_neg (by simp), if_pos (by simp), Statement.meaning?_label,
        List.dropLast_concat]
    · have other : line.getLast? ≠ some ':' := fun last =>
        labelled ⟨_, List.dropLast_append_getLast? _ last⟩
      rw [if_neg (by simpa using blank), if_neg other]
      split
      · rename_i lettered
        rw [means_instruction labelled lettered, Statement.meaning?_ofInstruction]
      · rename_i unlettered
        rw [means_bytes labelled blank (by simpa using unlettered),
          Statement.meaning?_ofBytes]

end ByteMachine.Source
