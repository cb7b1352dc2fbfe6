import ByteMachine.Proofs.Source.Malformed
import ByteMachine.Proofs.Source.Number

/-! What becomes of a token that should be a number. It has one value at most, which no zeros in
front of its digits change; it is read as that value if the bound allows it, and is refused
otherwise for the radix that its mark asks for. Eight binary digits ask for no radix, and no bound
of a byte or more refuses them. -/
namespace ByteMachine

namespace Radix

/-- The radix that a token asks for: that of its mark, or decimal if it has none. -/
inductive Asked : List Char → Radix → Prop where
  | marked {radix : Radix} {mark text} (known : radix.mark? = some mark) :
      Asked ('0' :: mark :: text) radix
  | unmarked {token}
      (plain : ∀ radix mark text, mark? radix = some mark → token ≠ '0' :: mark :: text) :
      Asked token decimal

/-- What stands in front of a numeral to tell its radix. -/
def marks (radix : Radix) : List Char :=
  match radix.mark? with
  | some mark => ['0', mark]
  | none => []

variable {radix other : Radix} {token : List Char}

theorem Asked.split_eq (asked : Asked token radix) : (split token).1 = radix := by
  cases asked with
  | marked known => rw [split_marked known]
  | unmarked plain =>
    obtain ⟨radix, mark, text, known, same⟩ | unmarked := split_cases token
    · exact absurd same (plain radix mark text known)
    · rw [unmarked]

theorem Asked.unique (first : Asked token radix) (second : Asked token other) : radix = other :=
  first.split_eq.symm.trans second.split_eq

theorem asked_split (token : List Char) : Asked token (split token).1 := by
  by_cases marked : ∃ radix mark text, mark? radix = some mark ∧ token = '0' :: mark :: text
  · obtain ⟨radix, mark, text, known, rfl⟩ := marked
    rw [split_marked known]
    exact .marked known
  · obtain marked' | unmarked := split_cases token
    · exact absurd marked' marked
    · rw [unmarked]
      exact .unmarked fun radix mark text known same => marked ⟨radix, mark, text, known, same⟩

end Radix

namespace Number

open Radix Source

variable {base bound n m : Nat} {text token : List Char} {radix : Radix}

/-- A numeral with zeros in front of its digits. -/
def padded (zeros : Nat) : List Char → List Char
  | '+' :: text => '+' :: (List.replicate zeros '0' ++ text)
  | text => List.replicate zeros '0' ++ text

theorem Numeral.padded (positive : 0 < base) (small : base ≤ 16) (numeral : Numeral base text n)
    (zeros : Nat) : Numeral base (padded zeros text) n := by
  cases numeral with
  | signed nonempty written =>
    exact .signed (List.append_ne_nil_of_right_ne_nil _ nonempty) (written.zeros positive zeros)
  | plain nonempty written =>
    have unsigned : Number.padded zeros text = List.replicate zeros '0' ++ text := by
      unfold Number.padded
      split
      · exact absurd written (not_writes_plus small)
      · rfl
    rw [unsigned]
    exact .plain (List.append_ne_nil_of_right_ne_nil _ nonempty) (written.zeros positive zeros)

/-- Reading under a bound that allows both values shows that they are the same. -/
theorem Denotes.unique (first : Denotes token n) (second : Denotes token m) : n = m := by
  have left : read (max n m) token = .ok n := read_eq_ok.mpr ⟨first, Nat.le_max_left n m⟩
  have right : read (max n m) token = .ok m := read_eq_ok.mpr ⟨second, Nat.le_max_right n m⟩
  exact Except.ok.inj (left.symm.trans right)

/-- Eight binary digits are the bits of a byte. -/
theorem exists_byte_of_bitPattern (pattern : BitPattern token) :
    ∃ n ≤ 0xFF, Denotes token n := by
  let bit (c : Char) : Nat := if c = '1' then 1 else 0
  have small : ∀ c, bit c < 2 := fun c => by simp only [bit]; split <;> decide
  have digits : List.Forall₂ (IsDigit 2) token (token.map bit) := by
    rw [List.forall₂_map_right_iff, List.forall₂_same]
    intro c member
    rcases pattern.2 c member with rfl | rfl
    · exact ⟨by decide, .inl rfl⟩
    · exact ⟨by decide, .inl rfl⟩
  have below : Nat.ofDigits 2 (token.map bit).reverse < 2 ^ 8 := by
    have binary : ∀ digit ∈ (token.map bit).reverse, digit < 2 := by
      intro digit member
      obtain ⟨c, -, rfl⟩ := List.mem_map.mp (List.mem_reverse.mp member)
      exact small c
    have bits := Nat.ofDigits_lt_base_pow_length (by decide) binary
    rwa [List.length_reverse, List.length_map, pattern.1] at bits
  exact ⟨_, Nat.le_of_lt_succ below, .bits pattern ⟨_, digits, rfl⟩⟩

theorem asked_of_read_eq_error (wide : 0xFF ≤ bound) (refused : read bound token = .error radix) :
    Asked token radix := by
  by_cases pattern : BitPattern token
  · obtain ⟨n, small, denotes⟩ := exists_byte_of_bitPattern pattern
    cases refused.symm.trans (read_eq_ok.mpr ⟨denotes, Nat.le_trans small wide⟩)
  · unfold read at refused
    rw [if_neg (mt isBitPattern_iff.mp pattern), mapError_eq_error] at refused
    obtain ⟨_, _, rfl⟩ := refused
    exact asked_split token

theorem read_eq_error (wide : 0xFF ≤ bound) :
    read bound token = .error radix ↔ Asked token radix ∧ ∀ n, Denotes token n → bound < n := by
  constructor
  · intro refused
    refine ⟨asked_of_read_eq_error wide refused, fun n denotes => Nat.lt_of_not_le fun within => ?_⟩
    cases refused.symm.trans (read_eq_ok.mpr ⟨denotes, within⟩)
  · rintro ⟨asked, beyond⟩
    cases outcome : read bound token with
    | ok n =>
      obtain ⟨denotes, within⟩ := read_eq_ok.mp outcome
      exact absurd within (Nat.not_le_of_lt (beyond n denotes))
    | error other => rw [(asked_of_read_eq_error wide outcome).unique asked]

/-- A numeral behind the marks of its radix is a number, except that it may look like a byte spelled
bit by bit if it has none. -/
theorem denotes_marked (numeral : Numeral radix.base text n)
    (other : ¬ BitPattern (radix.marks ++ text)) : Denotes (radix.marks ++ text) n := by
  cases radix with
  | decimal => exact .decimal other numeral
  | binary | octal | hexadecimal => exact .marked rfl numeral

/-- Bytes are read under their own bound, so what is read is the byte. -/
theorem readByte_eq_ok_iff {value : Byte} :
    Statement.readByte token = .ok value ↔ Denotes token value.toNat := by
  rw [readByte_eq_ok, read_eq_ok]
  exact and_iff_left (Nat.le_of_lt_succ value.toNat_lt)

/-- A token is read as the number that it denotes, if that is within the bound, and otherwise it is
refused for the radix that it asks for. It denotes one number at most, whatever zeros its digits
begin with. Where a byte is read, it is that number. -/
theorem tokens_read_as_numbers (wide : 0xFF ≤ bound) (token : List Char) :
    (∀ n, read bound token = .ok n ↔ Denotes token n ∧ n ≤ bound) ∧
    (∀ radix, read bound token = .error radix ↔
      Asked token radix ∧ ∀ n, Denotes token n → bound < n) ∧
    (∀ n m, Denotes token n → Denotes token m → n = m) ∧
    (∀ radix text n zeros, Numeral (Radix.base radix) text n → n ≤ bound →
      ¬ BitPattern (radix.marks ++ padded zeros text) →
        read bound (radix.marks ++ padded zeros text) = .ok n) ∧
    ∀ value : Byte, Statement.readByte token = .ok value ↔ Denotes token value.toNat := by
  refine ⟨fun _ => read_eq_ok, fun _ => read_eq_error wide, fun _ _ => Denotes.unique, ?_,
    fun _ => readByte_eq_ok_iff⟩
  intro radix text n zeros numeral within other
  exact read_eq_ok.mpr
    ⟨denotes_marked (numeral.padded radix.base_pos radix.base_le zeros) other, within⟩

/-- The largest byte behind a mark, a sign and zeros, and the number after it. -/
theorem largest_byte_and_next_number :
    read 0xFF "0x+000fF".toList = .ok 255 ∧ read 0xFF "0o400".toList = .error .octal := by
  have largest : Numeral 16 "+fF".toList 255 :=
    .signed nofun
      ⟨[15, 15], .cons ⟨by decide, .inl rfl⟩ (.cons ⟨by decide, .inr rfl⟩ .nil), by decide⟩
  have digits : Writes 8 "400".toList 256 :=
    ⟨[4, 0, 0], .cons ⟨by decide, .inl rfl⟩ (.cons ⟨by decide, .inl rfl⟩
      (.cons ⟨by decide, .inl rfl⟩ .nil)), by decide⟩
  have next : Denotes "0o400".toList 256 :=
    @Denotes.marked .octal 'o' "400".toList 256 rfl (.plain nofun digits)
  obtain ⟨-, -, -, padded, -⟩ := tokens_read_as_numbers (Nat.le_refl 0xFF) []
  obtain ⟨-, refused, unique, -⟩ := tokens_read_as_numbers (Nat.le_refl 0xFF) "0o400".toList
  refine ⟨padded .hexadecimal _ 255 3 largest (by decide) ?_,
    (refused .octal).mpr ⟨.marked rfl, ?_⟩⟩
  · exact mt isBitPattern_iff.mpr (by decide)
  · intro n denotes
    rw [unique n 256 denotes next]
    decide

end Number

end ByteMachine
