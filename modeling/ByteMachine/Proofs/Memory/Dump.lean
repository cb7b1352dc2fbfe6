import ByteMachine.Memory.Dump
import ByteMachine.Proofs.Source.Acceptance
import ByteMachine.Proofs.Source.Words
import ByteMachine.Proofs.Text.Numeral

/-! A dump read back. Each of its records tells the address of its row and the bytes in it; the
rows without a record are zero, so the records and the size tell the whole memory. -/
namespace ByteMachine

open Text

variable {size : Nat}

namespace Source

theorem mem_consecutive {position address : Nat} {value : Byte} {values : List Byte} :
    (address, value) ∈ consecutive position values ↔
      ∃ k, address = position + k ∧ values[k]? = some value := by
  induction values generalizing position with
  | nil => simp [consecutive]
  | cons first values ih =>
    rw [consecutive_cons, List.mem_cons, ih, Prod.mk.injEq]
    constructor
    · rintro (⟨rfl, rfl⟩ | ⟨k, rfl, stored⟩)
      · exact ⟨0, rfl, rfl⟩
      · exact ⟨k + 1, by omega, stored⟩
    · rintro ⟨_ | k, rfl, stored⟩
      · exact .inl ⟨rfl, (Option.some.inj stored).symm⟩
      · exact .inr ⟨k, by omega, stored⟩

end Source

namespace Memory

open Source

/-- A byte in capital hexadecimal. -/
def shownByte? (word : List Char) : Option Byte :=
  (Number.readDigits 16 0xFF 0 word).toOption.map UInt8.ofNat

/-- The cells that a record of a dump shows. Its first word is the address of the first of them,
with a colon behind it. -/
def shownCells (size : Nat) (record : Record) : List (Nat × Byte) :=
  match words record.text.toList with
  | [] => []
  | label :: bytes =>
    match Number.readDigits 16 size 0 label.dropLast with
    | .ok address => consecutive address (bytes.filterMap shownByte?)
    | .error _ => []

/-- The memory that is told by the records of a dump. -/
def ofDump (records : List Record) : Memory size :=
  zeros.placed (records.flatMap (shownCells size))

theorem shownByte?_upperHex (byte : Byte) :
    shownByte? (upperHex 2 byte.toNat).toList = some byte :=
  Number.byte_of_writes (by decide) (by decide) (writes_upperHex 2 byte.toNat)

theorem words_rowText (index : Nat) (bytes : List Byte) :
    words (rowText index bytes).toList =
      ((upperHex 4 (rowLength * index)).toList ++ [':']) ::
        bytes.map fun byte => (upperHex 2 byte.toNat).toList := by
  have split : (rowText index bytes).toList =
      ((upperHex 4 (rowLength * index)).toList ++ [':']) ++
        ' ' :: [' '].intercalate (bytes.map fun byte => (upperHex 2 byte.toNat).toList) := by
    simp only [rowText, String.toList_append, String.toList_intercalate, List.map_map,
      List.append_assoc]
    rfl
  have label : words ((upperHex 4 (rowLength * index)).toList ++ [':']) =
      [(upperHex 4 (rowLength * index)).toList ++ [':']] :=
    words_singleton (upperHex_colon 4 _).1 (upperHex_colon 4 _).2
  have cells : words ([' '].intercalate (bytes.map fun byte => (upperHex 2 byte.toNat).toList)) =
      bytes.map fun byte => (upperHex 2 byte.toNat).toList := by
    refine words_intercalate fun piece member => ?_
    obtain ⟨byte, -, rfl⟩ := List.mem_map.mp member
    exact ⟨upperHex_ne_nil 2 _, upperHex_unblank 2 _⟩
  rw [split, words_append_blank rfl, label, cells]
  rfl

theorem shownCells_row {index : Nat} {bytes : List Byte} (within : rowLength * index ≤ size) :
    shownCells size ⟨.info, .memory, rowText index bytes⟩ =
      consecutive (rowLength * index) bytes := by
  have address : Number.readDigits 16 size 0 (upperHex 4 (rowLength * index)).toList =
      .ok (rowLength * index) :=
    (Number.readDigits_zero_eq_ok (by decide) (by decide)).mpr ⟨writes_upperHex 4 _, within⟩
  have shown : (shownByte? ∘ fun byte : Byte => (upperHex 2 byte.toNat).toList) = some := by
    funext byte
    rw [Function.comp_apply, shownByte?_upperHex]
  have values : (bytes.map fun byte => (upperHex 2 byte.toNat).toList).filterMap shownByte? =
      bytes := by
    rw [List.filterMap_map, shown, List.filterMap_some]
  simp only [shownCells, words_rowText, List.dropLast_concat, address, values]

section Rows

variable (memory : Memory size)

/-- Whether a row has a byte to show. -/
def Shows (index : Nat) : Prop :=
  ∃ address value, address / rowLength = index ∧ memory.get? address = some value ∧ value ≠ 0

variable {memory} in
theorem Shows.within {index : Nat} (shows : memory.Shows index) : rowLength * index ≤ size := by
  obtain ⟨address, value, rfl, stored, -⟩ := shows
  exact Nat.le_trans (Nat.mul_div_le address rowLength) (Nat.le_of_lt (lt_of_get? stored))

theorem getElem?_row (index k : Nat) : (memory.row index)[k]? =
    if k < rowLength then memory.get? (rowLength * index + k) else none := by
  simp only [row, Array.getElem?_toList, Array.getElem?_extract, Vector.size_toArray,
    Vector.getElem?_toArray]
  by_cases early : k < rowLength
  · rw [if_pos early]
    split
    · rfl
    · exact (get?_eq_none_iff.mpr (by omega)).symm
  · rw [if_neg early, if_neg (by omega)]

/-- The rows that have a record, in the order of their addresses. -/
def shownRows : List Nat :=
  (List.range (rowCount size)).filter fun index => !(memory.row index).all (· == 0)

theorem dump_eq : memory.dump =
    memory.shownRows.map fun index => ⟨.info, .memory, rowText index (memory.row index)⟩ := by
  rw [shownRows, ← List.filterMap_eq_map, List.filterMap_filter, dump]
  refine List.filterMap_congr fun index _ => ?_
  simp only [rowRecord?]
  cases (memory.row index).all (· == 0) <;> rfl

theorem exists_row_of_mem_dump {record : Record} (listed : record ∈ memory.dump) :
    ∃ index, record = ⟨.info, .memory, rowText index (memory.row index)⟩ := by
  rw [dump_eq] at listed
  obtain ⟨index, _, rfl⟩ := List.mem_map.mp listed
  exact ⟨index, rfl⟩

theorem level_dump : ∀ record ∈ memory.dump, record.level = .info := by
  intro record listed
  obtain ⟨index, rfl⟩ := memory.exists_row_of_mem_dump listed
  rfl

theorem origin_dump : ∀ record ∈ memory.dump, record.origin = .memory := by
  intro record listed
  obtain ⟨index, rfl⟩ := memory.exists_row_of_mem_dump listed
  rfl

theorem mem_shownRows {index : Nat} : index ∈ memory.shownRows ↔ memory.Shows index := by
  have shows : (!(memory.row index).all (· == 0)) = true ↔
      ∃ (k : Nat) (value : Byte), (memory.row index)[k]? = some value ∧ value ≠ 0 := by
    simp only [Bool.not_eq_true', List.all_eq_false, List.mem_iff_getElem?, beq_iff_eq]
    constructor
    · rintro ⟨value, ⟨k, stored⟩, nonzero⟩
      exact ⟨k, value, stored, nonzero⟩
    · rintro ⟨k, value, stored, nonzero⟩
      exact ⟨value, ⟨k, stored⟩, nonzero⟩
  rw [shownRows, List.mem_filter, List.mem_range, shows]
  simp only [getElem?_row, Shows]
  constructor
  · rintro ⟨-, k, value, stored, nonzero⟩
    split at stored
    · rename_i early
      exact ⟨rowLength * index + k, value, by simp only [rowLength] at *; omega, stored, nonzero⟩
    · contradiction
  · rintro ⟨address, value, rfl, stored, nonzero⟩
    have inside := lt_of_get? stored
    refine ⟨?_, address % rowLength, value, ?_, nonzero⟩
    · simp only [rowCount, rowLength]
      omega
    · rw [if_pos (Nat.mod_lt address (by decide)), Nat.div_add_mod, stored]

theorem pairwise_shownRows : memory.shownRows.Pairwise (· < ·) :=
  List.pairwise_lt_range.filter _

end Rows

/-- Cells that are true of a memory, with no byte but zeros left out, are all there is to it. -/
theorem placed_zeros_eq {memory : Memory size} {cells : List (Nat × Byte)}
    (truthful : ∀ cell ∈ cells, memory.get? cell.1 = some cell.2)
    (complete : ∀ address value, memory.get? address = some value → value ≠ 0 →
      (address, value) ∈ cells) : zeros.placed cells = memory := by
  have within : Within size cells := fun cell member => lt_of_get? (truthful cell member)
  refine ext_get? fun address => ?_
  rw [get?_placed within]
  cases found : cells.reverse.lookup address with
  | some value =>
    obtain ⟨front, back, split, -⟩ := List.lookup_eq_some_iff.mp found
    have member : (address, value) ∈ cells := by
      rw [← List.mem_reverse, split]
      exact List.mem_append_right _ List.mem_cons_self
    exact (truthful _ member).symm
  | none =>
    rw [Option.none_or, get?_zeros]
    split
    · rename_i inside
      obtain ⟨value, stored⟩ := memory.get?_of_lt inside
      by_cases zero : value = 0
      · rw [stored, zero]
      · have member := complete address value stored zero
        have absent := List.lookup_eq_none_iff.mp found (address, value)
          (List.mem_reverse.mpr member)
        simp at absent
    · rename_i outside
      exact (get?_eq_none_iff.mpr (Nat.le_of_not_lt outside)).symm

theorem mem_shownCells_dump {memory : Memory size} {cell : Nat × Byte} :
    cell ∈ memory.dump.flatMap (shownCells size) ↔
      memory.Shows (cell.1 / rowLength) ∧ memory.get? cell.1 = some cell.2 := by
  obtain ⟨address, value⟩ := cell
  simp only [dump_eq, List.flatMap_map, List.mem_flatMap, mem_shownRows]
  constructor
  · rintro ⟨index, shows, member⟩
    rw [shownCells_row shows.within, mem_consecutive] at member
    obtain ⟨k, rfl, stored⟩ := member
    rw [getElem?_row] at stored
    split at stored
    · rename_i early
      rw [Nat.mul_add_div (by decide), Nat.div_eq_of_lt early, Nat.add_zero]
      exact ⟨shows, stored⟩
    · contradiction
  · rintro ⟨shows, stored⟩
    refine ⟨address / rowLength, shows, ?_⟩
    rw [shownCells_row shows.within, mem_consecutive]
    refine ⟨address % rowLength, (Nat.div_add_mod address rowLength).symm, ?_⟩
    rw [getElem?_row, if_pos (Nat.mod_lt address (by decide)), Nat.div_add_mod, stored]

theorem ofDump_dump (memory : Memory size) : ofDump memory.dump = memory := by
  refine placed_zeros_eq (fun cell member => (mem_shownCells_dump.mp member).2) ?_
  intro address value stored nonzero
  exact mem_shownCells_dump.mpr ⟨⟨address, value, rfl, stored, nonzero⟩, stored⟩

/-- A dump has a record for each row with a byte that is not zero and for no other, in ascending
order, and the record shows the address of the row and its bytes. The memory can be read back from
the records and its size, so memories of one size with one dump are the same. -/
theorem dump_tells_memory (memory : Memory size) :
    (∃ rows : List Nat, rows.Pairwise (· < ·) ∧ (∀ index, index ∈ rows ↔ memory.Shows index) ∧
      memory.dump = rows.map fun index => ⟨.info, .memory, rowText index (memory.row index)⟩) ∧
    (∀ index k, (memory.row index)[k]? =
      if k < rowLength then memory.get? (rowLength * index + k) else none) ∧
    ofDump memory.dump = memory ∧
    ∀ other : Memory size, other.dump = memory.dump → other = memory := by
  refine ⟨⟨memory.shownRows, memory.pairwise_shownRows, fun _ => memory.mem_shownRows,
    memory.dump_eq⟩, memory.getElem?_row, ofDump_dump memory, fun other same => ?_⟩
  rw [← ofDump_dump other, same, ofDump_dump]

/-- A row of zeros, and a last one that is short. -/
theorem dump_of_short_last_row :
    let memory : Memory 35 := zeros.overwrite 33 #[7]
    let other : Memory 35 := zeros.set 33 7
    memory.dump = [⟨.info, .memory, "0020: 00 07 00"⟩] ∧ other.dump = memory.dump ∧
      other = memory := by
  intro memory other
  have same : other.dump = memory.dump := by decide +kernel
  obtain ⟨-, -, -, injective⟩ := dump_tells_memory memory
  exact ⟨by decide +kernel, same, injective other same⟩

end Memory

end ByteMachine
