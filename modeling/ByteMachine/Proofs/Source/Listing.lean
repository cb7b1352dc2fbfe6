import ByteMachine.Proofs.Encoding
import ByteMachine.Proofs.Memory.Block
import ByteMachine.Proofs.Source.Acceptance
import ByteMachine.Proofs.Source.Number
import ByteMachine.Proofs.Source.Words

/-! Instructions as text: one on a line, by its mnemonic and with its operands in any of the ways
to write a number. There is a choice in almost every character of such a text, and none of them
matters: what is loaded are the bytes of the instructions, and zeros behind them. -/
namespace ByteMachine

variable {size : Nat}

namespace Source

open Text

/-- Blanks within a line. -/
def Gap (text : List Char) : Prop := ∀ c ∈ text, isBlank c = true ∧ c ≠ '\n'

theorem Gap.isBlank {gap : List Char} (blank : Gap gap) : ∀ c ∈ gap, isBlank c = true :=
  fun c member => (blank c member).1

theorem Gap.code {gap : List Char} (blank : Gap gap) : '#' ∉ gap :=
  fun member => absurd (blank.isBlank _ member) (by decide)

/-- Words with blanks between them. -/
inductive Spaced : List Char → List (List Char) → Prop where
  | single (word) : Spaced word [word]
  | cons {gap text words} (word) (apart : gap ≠ []) (blank : Gap gap) (rest : Spaced text words) :
      Spaced (word ++ gap ++ text) (word :: words)

/-- Bytes, each in one of the ways to write it. -/
def Operands (tokens : List (List Char)) (values : List Byte) : Prop :=
  List.Forall₂ (fun token value => Number.Denotes token value.toNat) tokens values

/-- A line that spells an instruction. -/
inductive Lists : List Char → Encoding → Prop where
  | line {front text back name tokens} {item : Encoding} (indented : Gap front) (trailed : Gap back)
      (spaced : Spaced text (name :: tokens)) (spelled : Spells name item.opcode)
      (operands : Operands tokens item.operands) : Lists (front ++ text ++ back) item

/-- Instructions on a line each. The last line may end in a newline, the others have to. -/
inductive Listing : List Char → List Encoding → Prop where
  | nil : Listing [] []
  | last {line item} (listed : Lists line item) : Listing line [item]
  | cons {line text item items} (listed : Lists line item) (rest : Listing text items) :
      Listing (line ++ '\n' :: text) (item :: items)

/-! Everything can be written. -/

theorem exists_operands (values : List Byte) : ∃ tokens, Operands tokens values := by
  induction values with
  | nil => exact ⟨[], .nil⟩
  | cons value values ih =>
    obtain ⟨tokens, rest⟩ := ih
    obtain ⟨token, first⟩ := Number.exists_denotes value.toNat
    exact ⟨token :: tokens, .cons first rest⟩

theorem exists_spaced (word : List Char) (words : List (List Char)) :
    ∃ text, Spaced text (word :: words) := by
  induction words generalizing word with
  | nil => exact ⟨word, .single word⟩
  | cons next words ih =>
    obtain ⟨text, rest⟩ := ih next
    have space : Gap [' '] := List.forall_mem_singleton.mpr ⟨rfl, by decide⟩
    exact ⟨word ++ [' '] ++ text, .cons word nofun space rest⟩

theorem spells_mnemonic (opcode : Opcode) : Spells opcode.mnemonic.toList opcode :=
  List.forall₂_same.mpr fun _ _ => .inl rfl

theorem exists_lists (item : Encoding) : ∃ line, Lists line item := by
  obtain ⟨tokens, operands⟩ := exists_operands item.operands
  obtain ⟨text, spaced⟩ := exists_spaced item.opcode.mnemonic.toList tokens
  exact ⟨[] ++ text ++ [], .line nofun nofun spaced (spells_mnemonic item.opcode) operands⟩

theorem exists_listing (items : List Encoding) : ∃ text, Listing text items := by
  induction items with
  | nil => exact ⟨[], .nil⟩
  | cons item items ih =>
    obtain ⟨text, rest⟩ := ih
    obtain ⟨line, listed⟩ := exists_lists item
    exact ⟨line ++ '\n' :: text, .cons listed rest⟩

/-! Words that no rule of the layout takes apart. -/

/-- A character that neither separates words nor begins a comment nor ends a label. -/
def isPlain (c : Char) : Bool := !isBlank c && c != '#' && c != ':'

theorem isPlain_iff {c : Char} : isPlain c = true ↔ isBlank c = false ∧ c ≠ '#' ∧ c ≠ ':' := by
  simp [isPlain, and_assoc]

structure Solid (word : List Char) : Prop where
  nonempty : word ≠ []
  plain : ∀ c ∈ word, isPlain c = true

theorem Solid.unblank {word : List Char} (solid : Solid word) : ∀ c ∈ word, isBlank c = false :=
  fun c member => (isPlain_iff.mp (solid.plain c member)).1

theorem solid_of_denotes {token : List Char} {n : Nat} (denotes : Number.Denotes token n) :
    Solid token where
  nonempty := denotes.nonempty
  plain c member := by
    have table : Number.characters.all isPlain = true := rfl
    exact List.all_eq_true.mp table c (denotes.mem_characters c member)

/-- What holds of the letters of a mnemonic, capital and small, holds of every spelling. -/
theorem forall_mem_of_spells {name : List Char} {opcode : Opcode} (test : Char → Bool)
    (spelled : Spells name opcode)
    (letters : opcode.mnemonic.toList.all (fun letter => test letter && test letter.toLower)) :
    ∀ c ∈ name, test c = true := by
  unfold Spells at spelled
  generalize opcode.mnemonic.toList = mnemonic at spelled letters
  induction spelled with
  | nil => exact List.forall_mem_nil _
  | cons same _ ih =>
    rw [List.all_cons, Bool.and_eq_true, Bool.and_eq_true] at letters
    obtain ⟨⟨capital, small⟩, rest⟩ := letters
    refine List.forall_mem_cons.mpr ⟨?_, ih rest⟩
    rcases same with rfl | rfl
    · exact capital
    · exact small

section Spelling

variable {name : List Char} {opcode : Opcode} (spelled : Spells name opcode)

include spelled

theorem solid_of_spells : Solid name where
  nonempty := by
    rintro rfl
    cases opcode <;> cases spelled
  plain := by
    refine forall_mem_of_spells isPlain spelled ?_
    cases opcode <;> rfl

theorem isAlpha_of_spells : ∀ c ∈ name, c.isAlpha = true := by
  refine forall_mem_of_spells Char.isAlpha spelled ?_
  cases opcode <;> rfl

end Spelling

namespace Spaced

variable {text word : List Char} {tokens : List (List Char)}

theorem starts (spaced : Spaced text (word :: tokens)) : ∃ rest, text = word ++ rest := by
  cases spaced with
  | single => exact ⟨[], (List.append_nil _).symm⟩
  | cons => exact ⟨_, List.append_assoc _ _ _⟩

theorem ends (spaced : Spaced text tokens) : ∃ front, ∃ token ∈ tokens, text = front ++ token := by
  induction spaced with
  | single word => exact ⟨[], word, List.mem_singleton_self word, rfl⟩
  | @cons gap text tokens word _ _ _ ih =>
    obtain ⟨front, token, member, rfl⟩ := ih
    exact ⟨word ++ gap ++ front, token, List.mem_cons_of_mem word member,
      (List.append_assoc _ _ _).symm⟩

theorem forall_mem {P : Char → Prop} (spaced : Spaced text tokens)
    (between : ∀ c, isBlank c = true → c ≠ '\n' → P c)
    (inside : ∀ token ∈ tokens, ∀ c ∈ token, P c) : ∀ c ∈ text, P c := by
  induction spaced with
  | single word => exact inside word (List.mem_singleton_self word)
  | @cons gap text tokens word _ blank _ ih =>
    obtain ⟨first, rest⟩ := List.forall_mem_cons.mp inside
    rw [List.forall_mem_append, List.forall_mem_append]
    exact ⟨⟨first, fun c member => between c (blank c member).1 (blank c member).2⟩, ih rest⟩

theorem words_eq (spaced : Spaced text tokens) (solid : ∀ token ∈ tokens, Solid token) :
    words text = tokens := by
  induction spaced with
  | single word =>
    have word := solid word List.mem_cons_self
    exact words_singleton word.nonempty word.unblank
  | @cons gap text tokens word apart blank _ ih =>
    obtain ⟨first, rest⟩ := List.forall_mem_cons.mp solid
    rw [words_append_blanks_append apart blank.isBlank,
      words_singleton first.nonempty first.unblank, ih rest]
    rfl

theorem trim_eq (spaced : Spaced text (word :: tokens))
    (solid : ∀ token ∈ word :: tokens, Solid token) : trim text = text := by
  apply trim_eq_self
  · obtain ⟨rest, rfl⟩ := spaced.starts
    have word := solid word List.mem_cons_self
    obtain ⟨c, _, rfl⟩ := List.exists_cons_of_ne_nil word.nonempty
    rintro _ ⟨⟩
    exact word.unblank c List.mem_cons_self
  · obtain ⟨front, token, member, rfl⟩ := spaced.ends
    have token := solid token member
    rw [List.getLast?_append_of_ne_nil _ token.nonempty]
    intro c last
    exact token.unblank c (List.mem_of_mem_getLast? last)

end Spaced

/-- Operands are read as the bytes that they denote, all of which are within the bound. -/
theorem denote_iff_operands {tokens : List (List Char)} {values : List Byte} :
    Denote tokens values ↔ Operands tokens values := by
  have pointwise (token : List Char) (value : Byte) :
      Number.read 0xFF token = .ok value.toNat ↔ Number.Denotes token value.toNat := by
    rw [Number.read_eq_ok]
    exact and_iff_left (Nat.le_of_lt_succ value.toNat_lt)
  simp only [Denote, Operands, pointwise]

theorem solid_of_operands {tokens : List (List Char)} {values : List Byte}
    (operands : Operands tokens values) : ∀ token ∈ tokens, Solid token := by
  unfold Operands at operands
  induction operands with
  | nil => exact List.forall_mem_nil _
  | cons first _ ih => exact List.forall_mem_cons.mpr ⟨solid_of_denotes first, ih⟩

/-- A character that may occur in a line without a label and a comment. -/
def isInline (c : Char) : Bool := (isBlank c && c != '\n') || isPlain c

namespace Spaced

variable {front text back : List Char} {tokens : List (List Char)} (indented : Gap front)
  (spaced : Spaced text tokens) (trailed : Gap back) (solid : ∀ token ∈ tokens, Solid token)

include indented spaced trailed solid

theorem inline : ∀ c ∈ front ++ text ++ back, isInline c = true := by
  have gap {blanks : List Char} (gap : Gap blanks) : ∀ c ∈ blanks, isInline c = true := by
    intro c member
    simp [isInline, gap c member]
  have inside : ∀ token ∈ tokens, ∀ c ∈ token, isInline c = true := by
    intro token known c member
    simp [isInline, (solid token known).plain c member]
  have words := spaced.forall_mem (fun c blank other => by simp [isInline, blank, other]) inside
  rw [List.forall_mem_append, List.forall_mem_append]
  exact ⟨⟨gap indented, words⟩, gap trailed⟩

/-- There is nothing to leave out of such a line but the blanks around it. -/
theorem trim_uncommented : trim (uncommented (front ++ text ++ back)) = text := by
  have inline := Spaced.inline indented spaced trailed solid
  rw [uncommented_eq_self fun member => absurd (inline _ member) (by decide),
    trim_append_blanks text indented.isBlank trailed.isBlank]
  cases spaced with
  | single => exact Spaced.trim_eq (.single _) solid
  | cons _ apart blank rest => exact Spaced.trim_eq (.cons _ apart blank rest) solid

theorem unlabelled : ¬ [':'] <:+ text := by
  rintro ⟨before, rfl⟩
  exact absurd (Spaced.inline indented spaced trailed solid ':' (by simp)) (by decide)

end Spaced

namespace Lists

variable {line : List Char} {item : Encoding}

theorem solid {name : List Char} {tokens : List (List Char)} (spelled : Spells name item.opcode)
    (operands : Operands tokens item.operands) : ∀ token ∈ name :: tokens, Solid token :=
  List.forall_mem_cons.mpr ⟨solid_of_spells spelled, solid_of_operands operands⟩

theorem inline (listed : Lists line item) : ∀ c ∈ line, isInline c = true := by
  cases listed with
  | line indented trailed spaced spelled operands =>
    exact Spaced.inline indented spaced trailed (solid spelled operands)

theorem nonempty (listed : Lists line item) : line ≠ [] := by
  cases listed with
  | line indented trailed spaced spelled operands =>
    obtain ⟨rest, rfl⟩ := spaced.starts
    simp [(solid_of_spells spelled).nonempty]

theorem means (listed : Lists line item) :
    Means size (trim (uncommented line)) (.bytes item.bytes) := by
  cases listed with
  | @line front text back name tokens item indented trailed spaced spelled operands =>
    have solid := solid spelled operands
    have unlabelled := Spaced.unlabelled indented spaced trailed solid
    rw [Spaced.trim_uncommented indented spaced trailed solid]
    refine .instruction unlabelled ?_ (spaced.words_eq solid) spelled
      (denote_iff_operands.mpr operands) (.inr item.complete)
    obtain ⟨rest, rfl⟩ := spaced.starts
    obtain ⟨c, _, rfl⟩ := List.exists_cons_of_ne_nil (solid name List.mem_cons_self).nonempty
    exact isAlpha_of_spells spelled c List.mem_cons_self

end Lists

theorem Listing.written {text : List Char} {items : List Encoding}
    (listing : Listing text items) :
    Written size (lines text) (items.map (.bytes ∘ Encoding.bytes)) := by
  have single {line : List Char} {item : Encoding} (listed : Lists line item) : '\n' ∉ line :=
    fun member => absurd (listed.inline _ member) (by decide)
  induction listing with
  | nil => exact .nil
  | last listed =>
    rw [lines_eq_singleton listed.nonempty (single listed)]
    exact .cons listed.means .nil
  | cons listed _ ih =>
    rw [lines_append_newline, List.splitOn_eq_singleton (single listed)]
    exact .cons listed.means ih

theorem consecutive_append (position : Nat) (front back : List Byte) :
    consecutive position (front ++ back) =
      consecutive position front ++ consecutive (position + front.length) back := by
  induction front generalizing position with
  | nil => rfl
  | cons byte front ih =>
    rw [List.cons_append, consecutive_cons, ih, consecutive_cons, List.cons_append,
      List.length_cons, Nat.add_assoc, Nat.add_comm 1]

/-- Bytes without a label between them lie in a row, whatever lines they are on. -/
theorem placements_bytes (position : Nat) (rows : List (List Byte)) :
    placements position (rows.map .bytes) = consecutive position rows.flatten := by
  induction rows generalizing position with
  | nil => rfl
  | cons row rows ih =>
    rw [List.flatten_cons, consecutive_append, ← ih]
    rfl

theorem within_consecutive {position : Nat} {bytes : List Byte}
    (room : position + bytes.length ≤ size) :
    Memory.Within size (consecutive position bytes) := by
  intro placement member
  have address := (List.of_mem_zip member).1
  rw [List.mem_range'_1] at address
  exact Nat.lt_of_lt_of_le address.2 room

/-- Bytes placed one by one in a row are a block. -/
theorem placed_consecutive (memory : Memory size) (position : Nat)
    (bytes : List Byte) :
    memory.placed (consecutive position bytes) = memory.overwrite position bytes.toArray := by
  induction bytes generalizing memory position with
  | nil => exact (memory.overwrite_empty position).symm
  | cons byte bytes ih =>
    rw [consecutive_cons, Memory.placed_cons, ih, Memory.overwrite_cons]

/-- What the loader makes of lines that mean bytes. -/
theorem load_bytes (addressable : size ≤ 0xFFFF) {text : List Char} {rows : List (List Byte)}
    (written : Written size (lines text) (rows.map .bytes)) (room : rows.flatten.length ≤ size)
    (memory : Memory size) :
    (load memory text).result = .ok (memory.overwrite 0 rows.flatten.toArray) := by
  rw [load_eq_ok addressable]
  refine ⟨_, written, ?_, ?_⟩
  · rw [placements_bytes]
    exact within_consecutive (by rwa [Nat.zero_add])
  · rw [placements_bytes, placed_consecutive]

/-- What the loader makes of instructions written line by line. -/
theorem load_listing (addressable : size ≤ 0xFFFF) {text : List Char}
    {items : List Encoding} (listing : Listing text items)
    (room : (Encoding.image items).length ≤ size) (memory : Memory size) :
    (load memory text).result =
      .ok (memory.overwrite 0 (Encoding.image items).toArray) := by
  have written : Written size (lines text) (items.map (.bytes ∘ Encoding.bytes)) := listing.written
  rw [← List.map_map] at written
  exact load_bytes addressable written room memory

end Source

end ByteMachine
