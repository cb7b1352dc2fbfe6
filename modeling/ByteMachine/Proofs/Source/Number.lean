import ByteMachine.Number
import ByteMachine.Proofs.Except
import Mathlib.Data.List.Forall2
import Mathlib.Data.Nat.Digits.Defs
import Mathlib.Tactic.SplitIfs

/-! The ways to write a number, apart from their reader. A text of digits has a value in its base
whatever its length. The reader gives up at the first digit that takes the value past the bound;
no later digit could bring it back, so what is read is the value, exactly if it is within the
bound. -/
namespace ByteMachine

namespace Radix

/-- The letter that tells the radix after a leading zero. -/
def mark? : Radix → Option Char
  | binary => some 'b'
  | octal => some 'o'
  | decimal => none
  | hexadecimal => some 'x'

theorem base_pos (radix : Radix) : 0 < radix.base := by
  cases radix <;> decide

theorem base_le (radix : Radix) : radix.base ≤ 16 := by
  cases radix <;> decide

theorem split_marked {radix : Radix} {mark : Char} (known : radix.mark? = some mark)
    (text : List Char) : split ('0' :: mark :: text) = (radix, text) := by
  cases radix with
  | decimal => contradiction
  | binary | octal | hexadecimal =>
    cases known
    rfl

/-- A token has a mark, or else all of it is decimal. -/
theorem split_cases (token : List Char) :
    (∃ radix mark text, mark? radix = some mark ∧ token = '0' :: mark :: text) ∨
      split token = (decimal, token) := by
  unfold split
  split
  · exact .inl ⟨binary, 'b', _, rfl, rfl⟩
  · exact .inl ⟨octal, 'o', _, rfl, rfl⟩
  · exact .inl ⟨hexadecimal, 'x', _, rfl, rfl⟩
  · exact .inr rfl

end Radix

namespace Number

/-- A digit of a base with its value. The letters for the values from ten on may be capitals. -/
def IsDigit (base : Nat) (c : Char) (value : Nat) : Prop :=
  value < base ∧ (c = value.digitChar ∨ c = value.digitChar.toUpper)

/-- The text consists of the digits of the number, the most significant first. -/
def Writes (base : Nat) (text : List Char) (n : Nat) : Prop :=
  ∃ digits, List.Forall₂ (IsDigit base) text digits ∧ n = Nat.ofDigits base digits.reverse

/-- One digit or more, without a sign or after a plus sign. -/
inductive Numeral (base : Nat) : List Char → Nat → Prop where
  | plain {text n} (nonempty : text ≠ []) (written : Writes base text n) : Numeral base text n
  | signed {text n} (nonempty : text ≠ []) (written : Writes base text n) :
      Numeral base ('+' :: text) n

def BitPattern (token : List Char) : Prop :=
  token.length = 8 ∧ ∀ c ∈ token, c = '0' ∨ c = '1'

/-- The ways to write a number. Eight binary digits are not read as decimal ones. -/
inductive Denotes : List Char → Nat → Prop where
  | bits {token n} (pattern : BitPattern token) (written : Writes 2 token n) : Denotes token n
  | marked {radix : Radix} {mark text n} (known : radix.mark? = some mark)
      (numeral : Numeral radix.base text n) : Denotes ('0' :: mark :: text) n
  | decimal {token n} (other : ¬ BitPattern token) (numeral : Numeral 10 token n) :
      Denotes token n

section Digits

theorem ascii_of_digitValue? {c : Char} {value : Nat} (known : digitValue? c = some value) :
    c.toNat < 128 := by
  have below {last : Char} (within : c ≤ last) (ascii : last.toNat < 128) : c.toNat < 128 :=
    Nat.lt_of_le_of_lt (UInt32.le_iff_toNat_le.mp (Char.le_def.mp within)) ascii
  unfold digitValue? at known
  split_ifs at known with decimal small capital
  · exact below decimal.2 (by decide)
  · exact below small.2 (by decide)
  · exact below capital.2 (by decide)

/-- Digits are among the ASCII characters, so it is enough to look through these. -/
theorem digitValue?_eq_some {c : Char} {value : Nat} (small : value < 16) :
    digitValue? c = some value ↔ c = value.digitChar ∨ c = value.digitChar.toUpper := by
  constructor
  · intro known
    have table : ∀ n < 128, ∀ value ∈ digitValue? (Char.ofNat n), value < 16 →
        Char.ofNat n = value.digitChar ∨ Char.ofNat n = value.digitChar.toUpper := by
      decide +kernel
    have entry := table c.toNat (ascii_of_digitValue? known)
    rw [Char.ofNat_toNat] at entry
    exact entry value known small
  · have table : ∀ value < 16, digitValue? value.digitChar = some value ∧
        digitValue? value.digitChar.toUpper = some value := by
      decide +kernel
    rintro (rfl | rfl)
    · exact (table value small).1
    · exact (table value small).2

theorem digit?_eq_some {base value : Nat} {c : Char} (small : base ≤ 16) :
    digit? base c = some value ↔ IsDigit base c value := by
  rw [digit?, Option.filter_eq_some_iff, and_comm, decide_eq_true_iff]
  exact and_congr_right fun below => digitValue?_eq_some (Nat.lt_of_lt_of_le below small)

end Digits

/-- Zeros in front change no value. -/
theorem Writes.zeros {base n : Nat} {text : List Char} (positive : 0 < base)
    (written : Writes base text n) (count : Nat) :
    Writes base (List.replicate count '0' ++ text) n := by
  induction count with
  | zero => exact written
  | succ count ih =>
    obtain ⟨digits, written, value⟩ := ih
    refine ⟨0 :: digits, .cons ⟨positive, .inl rfl⟩ written, ?_⟩
    rw [List.reverse_cons, Nat.ofDigits_append_zero, value]

theorem Writes.snoc {base n value : Nat} {text : List Char} {c : Char}
    (written : Writes base text n) (digit : IsDigit base c value) :
    Writes base (text ++ [c]) (n * base + value) := by
  obtain ⟨digits, written, rfl⟩ := written
  refine ⟨digits ++ [value], List.rel_append written (.cons digit .nil), ?_⟩
  rw [List.reverse_append, List.reverse_singleton, List.singleton_append, Nat.ofDigits_cons,
    Nat.add_comm, Nat.mul_comm]

/-- The digits of a number write it, by induction on the digits behind the first. -/
theorem writes_toDigits {base : Nat} (large : 1 < base) (n : Nat) :
    Writes base (Nat.toDigits base n) n := by
  induction n using Nat.strongRecOn with
  | ind n ih =>
    rw [Nat.toDigits_eq_if large]
    split
    · rename_i single
      exact ⟨[n], .cons ⟨single, .inl rfl⟩ .nil, Nat.ofDigits_singleton.symm⟩
    · rename_i several
      have positive : 0 < base := Nat.lt_of_succ_lt large
      have nonzero : 0 < n := Nat.lt_of_lt_of_le positive (Nat.le_of_not_lt several)
      have front := ih (n / base) (Nat.div_lt_self nonzero large)
      have last : IsDigit base (n % base).digitChar (n % base) :=
        ⟨Nat.mod_lt n positive, .inl rfl⟩
      have whole := front.snoc last
      rwa [Nat.div_add_mod'] at whole

/-- The value of a text after a part that has a value already. -/
def accumulate (base value : Nat) (digits : List Nat) : Nat :=
  digits.foldl (fun value digit => value * base + digit) value

theorem ofDigits_reverse (base : Nat) (digits : List Nat) :
    Nat.ofDigits base digits.reverse = accumulate base 0 digits := by
  rw [Nat.ofDigits_eq_foldr, List.foldr_reverse, accumulate]
  congr 1
  funext value digit
  rw [Nat.mul_comm, Nat.add_comm]
  rfl

theorem le_accumulate {base : Nat} (positive : 0 < base) (value : Nat) (digits : List Nat) :
    value ≤ accumulate base value digits := by
  induction digits generalizing value with
  | nil => exact Nat.le_refl value
  | cons digit digits ih =>
    calc value ≤ value * base := Nat.le_mul_of_pos_right value positive
      _ ≤ value * base + digit := Nat.le_add_right _ _
      _ ≤ accumulate base value (digit :: digits) := ih _

section Reading

variable {base bound n : Nat} {text : List Char} (positive : 0 < base) (small : base ≤ 16)

include positive small

theorem readDigits_eq_ok {value : Nat} (within : value ≤ bound) :
    readDigits base bound value text = .ok n ↔
      ∃ digits, List.Forall₂ (IsDigit base) text digits ∧ n = accumulate base value digits ∧
        n ≤ bound := by
  induction text generalizing value with
  | nil =>
    simp only [readDigits, Except.ok.injEq, List.forall₂_nil_left_iff, exists_eq_left]
    constructor
    · rintro rfl
      exact ⟨rfl, within⟩
    · rintro ⟨rfl, _⟩
      rfl
  | cons c rest ih =>
    simp only [readDigits, List.forall₂_cons_left_iff, ← digit?_eq_some small]
    cases digit? base c with
    | none => simp
    | some digit =>
      by_cases fits : value * base + digit ≤ bound
      · simp only [if_pos fits, ih fits, Option.some.injEq]
        constructor
        · rintro ⟨digits, written, rfl, below⟩
          exact ⟨digit :: digits, ⟨digit, digits, rfl, written, rfl⟩, rfl, below⟩
        · rintro ⟨_, ⟨_, digits, rfl, written, rfl⟩, rfl, below⟩
          exact ⟨digits, written, rfl, below⟩
      · simp only [if_neg fits, reduceCtorEq, false_iff]
        rintro ⟨_, ⟨_, digits, same, _, rfl⟩, rfl, below⟩
        cases same
        exact fits (Nat.le_trans (le_accumulate positive _ digits) below)

theorem readDigits_zero_eq_ok :
    readDigits base bound 0 text = .ok n ↔ Writes base text n ∧ n ≤ bound := by
  simp only [readDigits_eq_ok positive small (Nat.zero_le bound), Writes, ofDigits_reverse,
    ← and_assoc, exists_and_right]

omit positive in
/-- A sign is no digit. -/
theorem not_writes_plus : ¬ Writes base ('+' :: text) n := by
  have unsigned : digit? base '+' = none := by
    rw [digit?]
    rfl
  rintro ⟨_, _ | ⟨digit, _⟩, _⟩
  cases unsigned.symm.trans ((digit?_eq_some small).mpr digit)

theorem readNumeral_eq_ok :
    readNumeral base bound text = .ok n ↔ Numeral base text n ∧ n ≤ bound := by
  unfold readNumeral
  split
  · refine iff_of_false nofun ?_
    rintro ⟨⟨nonempty, _⟩, _⟩
    exact nonempty rfl
  · rename_i c rest
    rw [readDigits_zero_eq_ok positive small]
    refine and_congr_left fun _ => ⟨.signed (List.cons_ne_nil c rest), ?_⟩
    rintro (⟨_, written⟩ | ⟨_, written⟩)
    · exact absurd written (not_writes_plus small)
    · exact written
  · rename_i nonempty unmarked
    rw [readDigits_zero_eq_ok positive small]
    refine and_congr_left fun _ => ⟨.plain nonempty, ?_⟩
    rintro (⟨_, written⟩ | ⟨more, written⟩)
    · exact written
    · obtain ⟨c, rest, same⟩ := List.exists_cons_of_ne_nil more
      exact (unmarked c rest (congrArg _ same)).elim

/-- Reading under a bound that allows both values shows that they are the same. -/
theorem Writes.unique {m : Nat} (first : Writes base text n) (second : Writes base text m) :
    n = m := by
  have left := (readDigits_zero_eq_ok positive small).mpr ⟨first, Nat.le_max_left n m⟩
  have right := (readDigits_zero_eq_ok positive small).mpr ⟨second, Nat.le_max_right n m⟩
  exact Except.ok.inj (left.symm.trans right)

end Reading

theorem isBitPattern_iff {token : List Char} : isBitPattern token = true ↔ BitPattern token := by
  simp [isBitPattern, BitPattern]

namespace Denotes

variable {token text : List Char} {n : Nat} {radix : Radix} {mark : Char}

theorem digit?_mark (known : radix.mark? = some mark) : digit? 10 mark = none := by
  cases radix with
  | decimal => contradiction
  | binary | octal | hexadecimal =>
    cases known
    decide

theorem not_bitPattern_of_mark (known : radix.mark? = some mark) :
    ¬ BitPattern ('0' :: mark :: text) := by
  intro pattern
  rcases pattern.2 mark (by simp) with rfl | rfl
  · exact absurd (digit?_mark known) (by decide)
  · exact absurd (digit?_mark known) (by decide)

theorem of_bitPattern (pattern : BitPattern token) : Denotes token n ↔ Numeral 2 token n := by
  constructor
  · rintro (⟨_, written⟩ | ⟨known, _⟩ | ⟨other, _⟩)
    · exact .plain (List.ne_nil_of_length_pos (by rw [pattern.1]; decide)) written
    · exact absurd pattern (not_bitPattern_of_mark known)
    · exact absurd pattern other
  · rintro (⟨_, written⟩ | _)
    · exact .bits pattern written
    · exact absurd (pattern.2 '+' List.mem_cons_self) (by decide)

theorem of_mark (known : radix.mark? = some mark) :
    Denotes ('0' :: mark :: text) n ↔ Numeral radix.base text n := by
  refine ⟨?_, .marked known⟩
  rintro (⟨pattern, _⟩ | ⟨known', numeral⟩ | ⟨_, _, written⟩)
  · exact absurd pattern (not_bitPattern_of_mark known)
  · cases (Radix.split_marked known text).symm.trans (Radix.split_marked known' text)
    exact numeral
  · obtain ⟨_, _ | ⟨_, _ | ⟨digit, _⟩⟩, _⟩ := written
    cases (digit?_mark known).symm.trans ((digit?_eq_some (by decide)).mpr digit)

end Denotes

/-- A token is read as a number exactly if it is one of the ways to write it and the number is
within the bound. -/
theorem read_eq_ok {bound n : Nat} {token : List Char} :
    read bound token = .ok n ↔ Denotes token n ∧ n ≤ bound := by
  unfold read
  by_cases pattern : BitPattern token
  · rw [if_pos (isBitPattern_iff.mpr pattern), mapError_eq_ok,
      readNumeral_eq_ok (by decide) (by decide), Denotes.of_bitPattern pattern]
  · rw [if_neg (mt isBitPattern_iff.mp pattern)]
    obtain ⟨radix, mark, text, known, rfl⟩ | unmarked := Radix.split_cases token
    · simp only [Radix.split_marked known, mapError_eq_ok,
        readNumeral_eq_ok radix.base_pos radix.base_le, Denotes.of_mark known]
    · simp only [unmarked, mapError_eq_ok,
        readNumeral_eq_ok Radix.decimal.base_pos Radix.decimal.base_le]
      refine and_congr_left fun _ => ⟨Denotes.decimal pattern, ?_⟩
      rintro (⟨bits, _⟩ | ⟨known, _⟩ | ⟨_, numeral⟩)
      · exact absurd bits pattern
      · cases (Radix.split_marked known _).symm.trans unmarked
      · exact numeral

/-- Every number can be written. -/
theorem exists_denotes (n : Nat) : ∃ token, Denotes token n :=
  ⟨_, @Denotes.marked .hexadecimal 'x' _ n rfl
    (.plain Nat.toDigits_ne_nil (writes_toDigits (by decide) n))⟩

/-- The characters that numbers are made of. -/
def characters : List Char :=
  "+0123456789ABCDEFabcdefox".toList

theorem mem_characters_of_writes {base n : Nat} {text : List Char} (small : base ≤ 16)
    (written : Writes base text n) : ∀ c ∈ text, c ∈ characters := by
  obtain ⟨digits, written, -⟩ := written
  have table : ∀ value < 16, value.digitChar ∈ characters ∧
      value.digitChar.toUpper ∈ characters := by
    decide +kernel
  induction written with
  | nil => exact List.forall_mem_nil _
  | cons digit _ ih =>
    obtain ⟨below, rfl | rfl⟩ := digit
    · exact List.forall_mem_cons.mpr ⟨(table _ (Nat.lt_of_lt_of_le below small)).1, ih⟩
    · exact List.forall_mem_cons.mpr ⟨(table _ (Nat.lt_of_lt_of_le below small)).2, ih⟩

theorem Numeral.mem_characters {base n : Nat} {text : List Char} (small : base ≤ 16)
    (numeral : Numeral base text n) : ∀ c ∈ text, c ∈ characters := by
  cases numeral with
  | plain _ written => exact mem_characters_of_writes small written
  | signed _ written =>
    exact List.forall_mem_cons.mpr ⟨by decide, mem_characters_of_writes small written⟩

theorem Denotes.mem_characters {token : List Char} {n : Nat} (denotes : Denotes token n) :
    ∀ c ∈ token, c ∈ characters := by
  cases denotes with
  | bits _ written => exact mem_characters_of_writes (by decide) written
  | @marked radix mark text _ known numeral =>
    have marks : mark ∈ characters := by
      cases radix with
      | decimal => contradiction
      | binary | octal | hexadecimal =>
        cases known
        decide
    exact List.forall_mem_cons.mpr ⟨by decide, List.forall_mem_cons.mpr
      ⟨marks, numeral.mem_characters radix.base_le⟩⟩
  | decimal _ numeral => exact numeral.mem_characters (by decide)

theorem Denotes.nonempty {token : List Char} {n : Nat} (denotes : Denotes token n) :
    token ≠ [] := by
  cases denotes with
  | bits pattern _ => exact List.ne_nil_of_length_pos (by rw [pattern.1]; decide)
  | marked known numeral => exact List.cons_ne_nil _ _
  | decimal _ numeral =>
    cases numeral with
    | plain nonempty _ => exact nonempty
    | signed _ _ => exact List.cons_ne_nil _ _

/-- A number begins with a digit or a sign. -/
theorem Denotes.head_not_alpha {token : List Char} {n : Nat} (denotes : Denotes token n) :
    token.head?.any Char.isAlpha = false := by
  cases denotes with
  | bits pattern _ =>
    obtain ⟨length, digits⟩ := pattern
    cases token with
    | nil => contradiction
    | cons c token =>
      rcases digits c List.mem_cons_self with rfl | rfl
      · rfl
      · rfl
  | marked => rfl
  | decimal _ numeral =>
    cases numeral with
    | signed => rfl
    | plain nonempty written =>
      obtain ⟨digits, written, -⟩ := written
      cases written with
      | nil => contradiction
      | cons digit _ =>
        have table : ∀ value < 10, value.digitChar.isAlpha = false ∧
            value.digitChar.toUpper.isAlpha = false := by
          decide
        obtain ⟨below, rfl | rfl⟩ := digit
        · exact (table _ below).1
        · exact (table _ below).2

end Number

end ByteMachine
