import ByteMachine.Proofs.Source.Number
import ByteMachine.Text.Layout
import ByteMachine.Word

/-! What the digits of a printed number say. A number is printed as a text that writes it in its
base, whatever its width and whether its letters are capitals, so it can be read back. -/
namespace ByteMachine

namespace Number

variable {base n value : Nat} {text : List Char} {c : Char}

theorem IsDigit.toUpper (small : base ≤ 16) (digit : IsDigit base c value) :
    IsDigit base c.toUpper value := by
  have table : ∀ value < 16, value.digitChar.toUpper.toUpper = value.digitChar.toUpper := by
    decide +kernel
  obtain ⟨below, rfl | rfl⟩ := digit
  · exact ⟨below, .inr rfl⟩
  · exact ⟨below, .inr (table value (Nat.lt_of_lt_of_le below small))⟩

theorem Writes.toUpper (small : base ≤ 16) (written : Writes base text n) :
    Writes base (text.map Char.toUpper) n := by
  obtain ⟨digits, written, value⟩ := written
  refine ⟨digits, List.forall₂_map_left_iff.mpr ?_, value⟩
  exact written.imp fun _ _ digit => digit.toUpper small

/-- No digit is a blank. -/
theorem Writes.unblank (small : base ≤ 16) (written : Writes base text n) :
    ∀ c ∈ text, Text.isBlank c = false := by
  have table : characters.all (!Text.isBlank ·) = true := rfl
  intro c member
  simpa using List.all_eq_true.mp table c (mem_characters_of_writes small written c member)

/-- A byte is read back from the digits of its number. -/
theorem byte_of_writes (positive : 0 < base) (small : base ≤ 16) {byte : Byte}
    (written : Writes base text byte.toNat) :
    (readDigits base 0xFF 0 text).toOption.map UInt8.ofNat = some byte := by
  have read : readDigits base 0xFF 0 text = .ok byte.toNat :=
    (readDigits_zero_eq_ok positive small).mpr ⟨written, Nat.le_of_lt_succ byte.toNat_lt⟩
  rw [read]
  exact congrArg some UInt8.ofNat_toNat

end Number

namespace Text

open Number

theorem writes_numeral {base : Nat} (large : 1 < base) (width n : Nat) :
    Writes base (numeral base width n) n :=
  (writes_toDigits large n).zeros (Nat.lt_of_succ_lt large) _

theorem writes_upperHex (width n : Nat) : Writes 16 (upperHex width n).toList n := by
  rw [upperHex, String.toList_ofList]
  exact (writes_numeral (by decide) width n).toUpper (by decide)

theorem upperHex_ne_nil (width n : Nat) : (upperHex width n).toList ≠ [] := by
  rw [upperHex, String.toList_ofList, ne_eq, List.map_eq_nil_iff]
  exact List.append_ne_nil_of_right_ne_nil _ Nat.toDigits_ne_nil

theorem upperHex_unblank (width n : Nat) :
    ∀ c ∈ (upperHex width n).toList, isBlank c = false :=
  (writes_upperHex width n).unblank (by decide)

theorem not_mem_upperHex {c : Char} (other : c ∉ characters) (width n : Nat) :
    c ∉ (upperHex width n).toList :=
  fun member => other (mem_characters_of_writes (by decide) (writes_upperHex width n) c member)

theorem upperHex_inj {width n m : Nat} : upperHex width n = upperHex width m ↔ n = m := by
  constructor
  · intro same
    have written := writes_upperHex width m
    rw [← same] at written
    exact Writes.unique (by decide) (by decide) (writes_upperHex width n) written
  · rintro rfl
    rfl

/-- An address with a colon behind it is a word. -/
theorem upperHex_colon (width n : Nat) : (upperHex width n).toList ++ [':'] ≠ [] ∧
    ∀ c ∈ (upperHex width n).toList ++ [':'], isBlank c = false := by
  refine ⟨List.append_ne_nil_of_right_ne_nil _ (List.cons_ne_nil _ _), ?_⟩
  exact List.forall_mem_append.mpr ⟨upperHex_unblank width n, List.forall_mem_singleton.mpr rfl⟩

theorem writes_toString (n : Nat) : Writes 10 (toString n).toList n := by
  rw [Nat.toString_eq_ofList_toDigits, String.toList_ofList]
  exact writes_toDigits (by decide) n

theorem toString_ne_nil (n : Nat) : (toString n).toList ≠ [] := by
  rw [Nat.toString_eq_ofList_toDigits, String.toList_ofList]
  exact Nat.toDigits_ne_nil

theorem toString_unblank (n : Nat) : ∀ c ∈ (toString n).toList, isBlank c = false :=
  (writes_toString n).unblank (by decide)

end Text

end ByteMachine
