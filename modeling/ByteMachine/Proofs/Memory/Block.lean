import ByteMachine.Proofs.Encoding
import Mathlib.Order.Bounds.Basic

/-! Blocks of bytes against single ones. A block that has room leaves what its bytes would leave if
they were written one by one. A block that has none meets the fault that the first byte without a
cell would meet, but while the bytes before that one would stay written, the block leaves the memory
as it was. -/
namespace ByteMachine

variable {size : Nat}

namespace Memory

/-- The addresses of a block that a memory of the size has not got. -/
def missing (size start length : Nat) : Set Nat :=
  {address | start ≤ address ∧ address < start + length ∧ size ≤ address}

theorem isLeast_missing {start length : Nat} (some : 0 < length) (surplus : size < start + length) :
    IsLeast (missing size start length) (max start size) := by
  constructor
  · refine ⟨Nat.le_max_left start size, ?_, Nat.le_max_right start size⟩
    omega
  · rintro address ⟨behind, -, outside⟩
    exact Nat.max_le.mpr ⟨behind, outside⟩

variable (memory : Memory size) {start : Nat} {bytes : Array Byte}

theorem overwrite_empty (start : Nat) : memory.overwrite start #[] = memory := by
  refine ext_get? fun address => ?_
  rw [get?_overwrite, Array.size_empty, if_neg (by omega)]

theorem overwrite_outside (outside : size ≤ start) : memory.overwrite start bytes = memory := by
  refine ext_get? fun address => ?_
  rw [get?_overwrite, if_neg (by omega)]

theorem overwrite_cons (position : Nat) (byte : Byte) (bytes : List Byte) :
    memory.overwrite position (byte :: bytes).toArray =
      (memory.set position byte).overwrite (position + 1) bytes.toArray := by
  refine ext_get? fun address => ?_
  simp only [get?_overwrite, get?_set, List.size_toArray, List.length_cons,
    List.getElem?_toArray]
  rcases Nat.lt_trichotomy address position with before | rfl | behind
  · rw [if_neg (by omega), if_neg (by omega), if_neg (by omega)]
  · rw [if_neg (by omega : ¬ (address + 1 ≤ address ∧ _)), if_pos rfl, Nat.sub_self]
    by_cases inside : address < size
    · rw [if_pos (by omega), if_pos inside, List.getElem?_cons_zero]
    · rw [if_neg (by omega), if_neg inside, get?_eq_none_iff.mpr (Nat.le_of_not_lt inside)]
  · obtain ⟨k, rfl⟩ := Nat.exists_eq_add_of_le behind
    rw [if_neg (by omega : ¬ position = position.succ + k),
      show position.succ + k - position = k + 1 by omega,
      show position.succ + k - (position + 1) = k by omega, List.getElem?_cons_succ]
    exact if_congr (by omega) rfl rfl

variable {memory}

theorem holds_overwrite (room : start + bytes.size ≤ size) :
    (memory.overwrite start bytes).Holds start bytes.toList := by
  intro k within
  rw [Array.length_toList] at within
  rw [get?_overwrite, if_pos (by omega), Nat.add_sub_cancel_left, Array.getElem?_toList]

theorem get?_overwrite_of_not {address : Nat}
    (apart : ¬ (start ≤ address ∧ address < start + bytes.size)) :
    (memory.overwrite start bytes).get? address = memory.get? address := by
  rw [get?_overwrite, if_neg fun covered => apart ⟨covered.1, covered.2.1⟩]

end Memory

namespace Edit

open Memory

/-- What an action leaves, whether it comes to its end or meets a fault. -/
def leaves (edit : Edit size Unit) (memory : Memory size) : Memory size :=
  match edit memory with
  | .ok _ after => after
  | .error _ after => after

/-- Writes bytes one by one, each behind the one before it. -/
def writeEach (address : Nat) : List Byte → Edit size Unit
  | [] => return ()
  | byte :: bytes => do
    write address byte
    writeEach (address + 1) bytes

variable {memory written left : Memory size} {start : Nat}

theorem result_eq_ok {edit : Edit size Unit} :
    edit.result memory = .ok written ↔ edit memory = .ok () written := by
  unfold result
  cases edit memory <;> simp

theorem writeEach_cons (address : Nat) (byte : Byte) (bytes : List Byte) (memory : Memory size) :
    writeEach address (byte :: bytes) memory =
      if address < size then writeEach (address + 1) bytes (memory.set address byte)
      else .error (.addressOutOfRange address) memory := by
  change EStateM.bind (write address byte) _ memory = _
  rw [EStateM.bind, write_apply]
  by_cases inside : address < size
  · rw [if_pos inside, if_pos inside]
  · rw [if_neg inside, if_neg inside]

theorem writeEach_of_room {bytes : List Byte} (room : start + bytes.length ≤ size) :
    writeEach start bytes memory = .ok () (memory.overwrite start bytes.toArray) := by
  induction bytes generalizing memory start with
  | nil => exact congrArg _ (memory.overwrite_empty start).symm
  | cons byte bytes ih =>
    rw [List.length_cons] at room
    rw [writeEach_cons, if_pos (by omega), overwrite_cons]
    exact ih (by omega)

/-- The first byte without a cell stops the writing, and those before it stay written. -/
theorem writeEach_of_surplus {bytes : List Byte} (some : bytes ≠ [])
    (surplus : size < start + bytes.length) :
    writeEach start bytes memory =
      .error (.addressOutOfRange (max start size)) (memory.overwrite start bytes.toArray) := by
  induction bytes generalizing memory start with
  | nil => contradiction
  | cons byte bytes ih =>
    rw [List.length_cons] at surplus
    rw [writeEach_cons]
    by_cases inside : start < size
    · have more : bytes ≠ [] := by
        rintro rfl
        rw [List.length_nil] at surplus
        omega
      have behind : max (start + 1) size = max start size := by omega
      rw [if_pos inside, overwrite_cons, ← behind]
      exact ih more (by omega)
    · have outside := Nat.le_of_not_lt inside
      rw [if_neg inside, Nat.max_eq_left outside, overwrite_outside memory outside]

variable {bytes : Array Byte} {fault : Fault}

theorem writeBlock_eq_ok : writeBlock start bytes memory = .ok () written ↔
    start + bytes.size ≤ size ∧ written = memory.overwrite start bytes := by
  rw [writeBlock_apply]
  split <;> simp_all [eq_comm]

theorem writeBlock_eq_error : writeBlock start bytes memory = .error fault left ↔
    size < start + bytes.size ∧ fault = .addressOutOfRange (max start size) ∧ left = memory := by
  rw [writeBlock_apply]
  split <;> simp_all [eq_comm]

theorem exists_writeBlock_iff :
    (∃ written, writeBlock start bytes memory = .ok () written) ↔ start + bytes.size ≤ size := by
  simp only [writeBlock_eq_ok, exists_and_left, exists_eq, and_true]

theorem result_writeBlock (some : bytes ≠ #[]) :
    (writeBlock start bytes).result memory = (writeEach start bytes.toList).result memory := by
  have listed : bytes.toList ≠ [] := mt Array.toList_eq_nil_iff.mp some
  rw [result, result, writeBlock_apply]
  by_cases room : start + bytes.size ≤ size
  · rw [if_pos room, writeEach_of_room room]
  · rw [if_neg room, writeEach_of_surplus listed (Nat.lt_of_not_le room)]

/-- No bytes are written even where they cannot be. -/
theorem leaves_writeBlock_empty : (writeBlock start #[]).leaves memory = memory := by
  rw [leaves]
  cases outcome : writeBlock start #[] memory with
  | ok _ after =>
    obtain ⟨-, rfl⟩ := writeBlock_eq_ok.mp outcome
    exact memory.overwrite_empty start
  | error fault after => exact (writeBlock_eq_error.mp outcome).2.2

end Edit

namespace Memory

variable {written : Memory size}

theorem ofBytes_eq_ok {bytes : Array Byte} : ofBytes bytes = .ok written ↔
    bytes.size ≤ size ∧ written = zeros.overwrite 0 bytes := by
  rw [ofBytes, writeBlock, Edit.result_eq_ok, Edit.writeBlock_eq_ok, Nat.zero_add]

end Memory

namespace Edit

open Memory

/-- A block of one byte or more is written exactly if its last byte has a cell. Then it is what its
bytes come to one by one, can be read back, and leaves the other cells alone; otherwise the memory
is left as it was and the fault names the least address that is missing. A block of no bytes changes
nothing, but has to begin within the memory or right behind it. A memory made of bytes has to have
room for them, and is zero after them. -/
theorem block_write_is_byte_writes_or_nothing (memory : Memory size) (start : Nat)
    (bytes : Array Byte) :
    (bytes ≠ #[] →
      ((∃ written, writeBlock start bytes memory = .ok () written) ↔ start + bytes.size ≤ size) ∧
      (writeBlock start bytes).result memory = (writeEach start bytes.toList).result memory ∧
      ∀ fault left, writeBlock start bytes memory = .error fault left →
        left = memory ∧ fault = .addressOutOfRange (max start size) ∧
        IsLeast (missing size start bytes.size) (max start size)) ∧
    (∀ written, writeBlock start bytes memory = .ok () written →
      written.Holds start bytes.toList ∧
      ∀ address, ¬ (start ≤ address ∧ address < start + bytes.size) →
        written.get? address = memory.get? address) ∧
    (((∃ written, writeBlock start #[] memory = .ok () written) ↔ start ≤ size) ∧
      (writeBlock start #[]).leaves memory = memory) ∧
    ((∃ loaded : Memory size, ofBytes bytes = .ok loaded) ↔ bytes.size ≤ size) ∧
    ∀ loaded : Memory size, ofBytes bytes = .ok loaded → loaded.BeginsWith bytes.toList := by
  refine ⟨fun some => ⟨exists_writeBlock_iff, result_writeBlock some, ?refused⟩, ?stored,
    ⟨exists_writeBlock_iff, leaves_writeBlock_empty⟩, ?fits, ?loads⟩
  case refused =>
    intro fault left refused
    obtain ⟨surplus, rfl, rfl⟩ := writeBlock_eq_error.mp refused
    exact ⟨rfl, rfl, isLeast_missing (Array.size_pos_iff.mpr some) surplus⟩
  case stored =>
    intro written stored
    obtain ⟨room, rfl⟩ := writeBlock_eq_ok.mp stored
    exact ⟨holds_overwrite room, fun address apart => get?_overwrite_of_not apart⟩
  case fits =>
    simp only [ofBytes_eq_ok, exists_and_left, exists_eq, and_true]
  case loads =>
    intro loaded filled
    obtain ⟨fits, rfl⟩ := ofBytes_eq_ok.mp filled
    exact beginsWith_overwrite fits

/-- Five bytes for the last two cells of four. One by one, the first two would be written. -/
theorem block_across_end :
    let memory : Memory 4 := zeros.set 2 7
    writeBlock 2 #[1, 2, 3, 4, 5] memory = .error (.addressOutOfRange 4) memory ∧
      IsLeast (missing 4 2 5) 4 ∧
      ((writeEach 2 [1, 2, 3, 4, 5]).leaves memory).get? 2 = some 1 := by
  intro memory
  obtain ⟨some, -⟩ := block_write_is_byte_writes_or_nothing memory 2 #[1, 2, 3, 4, 5]
  obtain ⟨-, -, refused⟩ := some (by decide)
  obtain ⟨left, outcome⟩ : ∃ left, writeBlock 2 #[1, 2, 3, 4, 5] memory =
      .error (.addressOutOfRange 4) left := ⟨_, rfl⟩
  obtain ⟨rfl, -, least⟩ := refused _ left outcome
  exact ⟨outcome, least, by decide⟩

end Edit

end ByteMachine
