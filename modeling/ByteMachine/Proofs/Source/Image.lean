import ByteMachine.Proofs.Source.Listing
import ByteMachine.Proofs.Source.Reports

/-! Texts that list bytes and nothing else. How the bytes are written, how many of them are on a
line, and which lines are blank or have comments, makes no difference: such a text is loaded like
the bytes in one block. If they do not fit, each line with a byte too many is blamed for it. -/
namespace ByteMachine

variable {size : Nat}

namespace Source

open Text

/-- What may stand behind the last word of a line. -/
inductive Remark : List Char → Prop where
  | none : Remark []
  | comment {text} (single : '\n' ∉ text) : Remark ('#' :: text)

/-- A line of bytes, or one without any. -/
inductive ByteLine : List Char → List Byte → Prop where
  | blank {gap remark} (blank : Gap gap) (remarked : Remark remark) : ByteLine (gap ++ remark) []
  | bytes {front text back remark tokens values} (indented : Gap front) (trailed : Gap back)
      (spaced : Spaced text tokens) (operands : Operands tokens values)
      (remarked : Remark remark) : ByteLine (front ++ text ++ back ++ remark) values

/-- Lines of bytes. The last one may end in a newline, the others have to. -/
inductive ByteText : List Char → List (List Byte) → Prop where
  | nil : ByteText [] []
  | last {line row} (nonempty : line ≠ []) (listed : ByteLine line row) : ByteText line [row]
  | cons {line text row rows} (listed : ByteLine line row) (rest : ByteText text rows) :
      ByteText (line ++ '\n' :: text) (row :: rows)

/-- The numbers of the lines that have a byte without a place among the first ones. The lines are
numbered from one on, and their bytes from another. -/
def surplusLines (size number index : Nat) : List (List Byte) → List Nat
  | [] => []
  | row :: rows =>
    (if ∃ k < row.length, size ≤ index + k then [number] else []) ++
      surplusLines size (number + 1) (index + row.length) rows

theorem exists_byteLine (row : List Byte) : ∃ line, ByteLine line row := by
  obtain ⟨tokens, operands⟩ := exists_operands row
  cases operands with
  | nil => exact ⟨_, .blank (List.forall_mem_nil _) .none⟩
  | @cons token value tokens values first rest =>
    obtain ⟨text, spaced⟩ := exists_spaced token tokens
    have none : Gap [] := List.forall_mem_nil _
    exact ⟨_, .bytes none none spaced (.cons first rest) .none⟩

theorem exists_byteText (rows : List (List Byte)) : ∃ text, ByteText text rows := by
  induction rows with
  | nil => exact ⟨[], .nil⟩
  | cons row rows ih =>
    obtain ⟨text, rest⟩ := ih
    obtain ⟨line, listed⟩ := exists_byteLine row
    exact ⟨line ++ '\n' :: text, .cons listed rest⟩

theorem Remark.newline_not_mem {remark : List Char} (remarked : Remark remark) : '\n' ∉ remark := by
  cases remarked with
  | none => exact List.not_mem_nil
  | comment single => simpa using single

theorem Remark.uncommented_append {code remark : List Char} (remarked : Remark remark)
    (plain : '#' ∉ code) : uncommented (code ++ remark) = uncommented code := by
  cases remarked with
  | none => rw [List.append_nil]
  | comment => rw [uncommented_append_comment _ plain, uncommented_eq_self plain]

namespace ByteLine

variable {line : List Char} {row : List Byte}

theorem newline_not_mem (listed : ByteLine line row) : '\n' ∉ line := by
  cases listed with
  | blank blank remarked =>
    rw [List.mem_append, not_or]
    exact ⟨fun member => (blank _ member).2 rfl, remarked.newline_not_mem⟩
  | bytes indented trailed spaced operands remarked =>
    have inline := Spaced.inline indented spaced trailed (solid_of_operands operands)
    rw [List.mem_append, not_or]
    exact ⟨fun member => absurd (inline _ member) (by decide), remarked.newline_not_mem⟩

theorem means (listed : ByteLine line row) :
    Means size (trim (uncommented line)) (.bytes row) := by
  cases listed with
  | @blank gap _ blank remarked =>
    have plain : '#' ∉ gap := fun member => absurd (blank _ member).1 (by decide)
    have empty := trim_append_blanks [] blank.isBlank (List.forall_mem_nil _)
    rw [List.append_nil, List.append_nil] at empty
    rw [remarked.uncommented_append plain, uncommented_eq_self plain, empty]
    exact .blank
  | @bytes front text back _ tokens _ indented trailed spaced operands remarked =>
    have solid := solid_of_operands operands
    have inline := Spaced.inline indented spaced trailed solid
    rw [remarked.uncommented_append fun member => absurd (inline _ member) (by decide),
      Spaced.trim_uncommented indented spaced trailed solid]
    have denoted : Denote (words text) row := by
      rw [spaced.words_eq solid]
      exact denote_iff_operands.mpr operands
    have begins : text ≠ [] ∧ text.head?.any Char.isAlpha = false := by
      cases operands with
      | nil => cases spaced
      | cons first _ =>
        obtain ⟨rest, rfl⟩ := spaced.starts
        have nonempty := first.nonempty
        refine ⟨by simp [nonempty], ?_⟩
        rw [List.head?_append_of_ne_nil _ nonempty]
        exact first.head_not_alpha
    exact .bytes begins.1 (Spaced.unlabelled indented spaced trailed solid) begins.2 denoted

end ByteLine

theorem ByteText.written {text : List Char} {rows : List (List Byte)}
    (listed : ByteText text rows) : Written size (lines text) (rows.map .bytes) := by
  induction listed with
  | nil => exact .nil
  | last nonempty listed =>
    rw [lines_eq_singleton nonempty listed.newline_not_mem]
    exact .cons listed.means .nil
  | cons listed _ ih =>
    rw [lines_append_newline, List.splitOn_eq_singleton listed.newline_not_mem]
    exact .cons listed.means ih

/-- Each line of bytes leaves the position behind its last byte, as far as there are cells. -/
theorem reports_of_written {lines : List (List Char)} {rows : List (List Byte)}
    (written : Written size lines (rows.map .bytes)) (number index : Nat) :
    reports size number (min index size) lines =
      (surplusLines size number index rows).map (⟨·, .noRoom size⟩) := by
  induction rows generalizing lines number index with
  | nil =>
    cases written
    rfl
  | cons row rows ih =>
    cases written with
    | @cons raw _ lines _ means rest =>
      have meant := means_iff.mp means
      obtain ⟨values, reach⟩ := Statement.reach_of_bytes meant (min index size)
      have moves : min (min index size + row.length) size = min (index + row.length) size := by
        omega
      have surplus : (∃ k < row.length, size ≤ index + k) ↔
          ¬ min index size + row.length ≤ size := by
        constructor
        · rintro ⟨k, inside, beyond⟩
          omega
        · intro full
          exact ⟨row.length - 1, by omega, by omega⟩
      rw [reports, reach, moves, ih rest, surplusLines, List.map_append, Statement.problem?, values,
        (Statement.flaw?_eq_none_iff _).mpr ⟨_, meant⟩]
      refine congrArg (· ++ _) ?_
      simp only [surplus]
      split <;> simp_all

/-- No line has a byte too many exactly if there is room for all of them. -/
theorem surplusLines_eq_nil {number index : Nat} {rows : List (List Byte)} (within : index ≤ size) :
    surplusLines size number index rows = [] ↔ index + rows.flatten.length ≤ size := by
  induction rows generalizing number index with
  | nil => exact iff_of_true rfl within
  | cons row rows ih =>
    rw [surplusLines, List.append_eq_nil_iff, List.flatten_cons, List.length_append,
      ← Nat.add_assoc]
    by_cases fits : index + row.length ≤ size
    · rw [ih fits, if_neg (by rintro ⟨k, inside, beyond⟩; omega)]
      exact and_iff_right rfl
    · have surplus : ∃ k < row.length, size ≤ index + k :=
        ⟨size - index, by omega, by omega⟩
      rw [if_pos surplus]
      exact iff_of_false (fun none => nomatch none.1) (by omega)

/-- A text that lists bytes is loaded exactly if they fit into the memory, as which they are loaded
in one block, and otherwise the lines with bytes too many are what is wrong with it. -/
theorem byte_text_loads_as_block (addressable : size ≤ 0xFFFF) (rows : List (List Byte)) :
    (∃ text, ByteText text rows) ∧ ∀ text, ByteText text rows →
      (∀ memory : Memory size, (load .zeros text).result = .ok memory ↔
        Memory.ofBytes rows.flatten.toArray = .ok memory) ∧
      ((∃ memory : Memory size, Memory.ofBytes rows.flatten.toArray = .ok memory) ↔
        rows.flatten.length ≤ size) ∧
      (size < rows.flatten.length → (load (.zeros : Memory size) text).result =
        .error ((surplusLines size 1 0 rows).map (⟨·, .noRoom size⟩))) := by
  refine ⟨exists_byteText rows, fun text listed => ?_⟩
  have written : Written size (lines text) (rows.map .bytes) := listed.written
  have refused (surplus : size < rows.flatten.length) : (load (.zeros : Memory size) text).result =
      .error ((surplusLines size 1 0 rows).map (⟨·, .noRoom size⟩)) := by
    have errors : (load (.zeros : Memory size) text).errors =
        (surplusLines size 1 0 rows).map (⟨·, .noRoom size⟩) := by
      rw [Progress.errors_load addressable, ← reports_of_written written, Nat.zero_min]
    rw [← errors]
    refine Progress.result_of_errors ?_
    rw [errors, ne_eq, List.map_eq_nil_iff, surplusLines_eq_nil (Nat.zero_le _), Nat.zero_add]
    exact Nat.not_le_of_lt surplus
  refine ⟨fun memory => ?_, ?_, refused⟩
  · rw [Memory.ofBytes_eq_ok, List.size_toArray]
    by_cases room : rows.flatten.length ≤ size
    · rw [load_bytes addressable written room, Except.ok.injEq, eq_comm, and_iff_right room]
    · rw [refused (Nat.lt_of_not_le room)]
      exact iff_of_false nofun fun fits => room fits.1
  · simp only [Memory.ofBytes_eq_ok, exists_and_left, exists_eq, and_true, List.size_toArray]

/-- Five bytes for three cells. The first line with a byte too many has one that finds its place. -/
theorem byte_text_with_bytes_too_many :
    (load (.zeros : Memory 3) "0x01 00000010 # two\n \n+3 0b100\n5".toList).result =
      .error [⟨3, .noRoom 3⟩, ⟨4, .noRoom 3⟩] := by
  have space : Gap [' '] := List.forall_mem_singleton.mpr ⟨rfl, by decide⟩
  have none : Gap [] := List.forall_mem_nil _
  have pair : Spaced "0x01 00000010".toList ["0x01".toList, "00000010".toList] :=
    @Spaced.cons [' '] "00000010".toList _ "0x01".toList nofun space (.single _)
  have pair' : Spaced "+3 0b100".toList ["+3".toList, "0b100".toList] :=
    @Spaced.cons [' '] "0b100".toList _ "+3".toList nofun space (.single _)
  have operands : Operands ["0x01".toList, "00000010".toList] [1, 2] :=
    denote_iff_operands.mp (.cons rfl (.cons rfl .nil))
  have operands' : Operands ["+3".toList, "0b100".toList] [3, 4] :=
    denote_iff_operands.mp (.cons rfl (.cons rfl .nil))
  have operand : Operands ["5".toList] [5] := denote_iff_operands.mp (.cons rfl .nil)
  have first : ByteLine "0x01 00000010 # two".toList [1, 2] :=
    @ByteLine.bytes [] _ [' '] "# two".toList _ _ none space pair operands (.comment (by decide))
  have second : ByteLine " ".toList [] := @ByteLine.blank [' '] [] space .none
  have third : ByteLine "+3 0b100".toList [3, 4] :=
    @ByteLine.bytes [] _ [] [] _ _ none none pair' operands' .none
  have fourth : ByteLine "5".toList [5] :=
    @ByteLine.bytes [] _ [] [] _ _ none none (.single _) operand .none
  have listed : ByteText "0x01 00000010 # two\n \n+3 0b100\n5".toList [[1, 2], [], [3, 4], [5]] :=
    .cons first (.cons second (.cons third (.last (by decide) fourth)))
  exact ((byte_text_loads_as_block (by decide) _).2 _ listed).2.2 (by decide)

end Source

end ByteMachine
