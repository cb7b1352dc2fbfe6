import ByteMachine.Proofs.Source.Language
import ByteMachine.Source.Load

/-! What the loader makes of a program text. The bytes of the lines have their addresses before
anything is loaded; loading succeeds exactly if every line has a meaning and every byte an address
inside the memory, and then it has placed these bytes in their order and nothing else. -/
namespace ByteMachine

namespace Memory

variable {size : Nat}

/-- The memory with bytes put at addresses, one after another. -/
def placed (memory : Memory size) (bytes : List (Nat × Byte)) : Memory size :=
  bytes.foldl (fun memory (address, value) => memory.set address value) memory

theorem placed_cons (memory : Memory size) (address : Nat) (value : Byte)
    (bytes : List (Nat × Byte)) :
    memory.placed ((address, value) :: bytes) = (memory.set address value).placed bytes := rfl

theorem placed_append (memory : Memory size) (front back : List (Nat × Byte)) :
    memory.placed (front ++ back) = (memory.placed front).placed back :=
  List.foldl_append

/-- All of the addresses exist in a memory of the size. -/
def Within (size : Nat) (bytes : List (Nat × Byte)) : Prop :=
  ∀ placement ∈ bytes, placement.1 < size

theorem within_cons {address : Nat} {value : Byte} {bytes : List (Nat × Byte)} :
    Within size ((address, value) :: bytes) ↔ address < size ∧ Within size bytes :=
  List.forall_mem_cons

theorem within_append {front back : List (Nat × Byte)} :
    Within size (front ++ back) ↔ Within size front ∧ Within size back :=
  List.forall_mem_append

/-- The last byte for an address stays there, and a cell that gets no byte keeps its own. -/
theorem get?_placed {bytes : List (Nat × Byte)} (within : Within size bytes)
    (memory : Memory size) (address : Nat) :
    (memory.placed bytes).get? address =
      (bytes.reverse.lookup address).or (memory.get? address) := by
  induction bytes generalizing memory with
  | nil => rfl
  | cons first bytes ih =>
    obtain ⟨target, value⟩ := first
    obtain ⟨inside, within⟩ := within_cons.mp within
    rw [placed_cons, ih within, get?_set, List.reverse_cons, List.lookup_append, Option.or_assoc]
    by_cases same : target = address
    · subst same
      simp [inside]
    · have other : (address == target) = false := by simpa using Ne.symm same
      rw [if_neg same, List.lookup_cons, other, List.lookup_nil, Option.none_or]

end Memory

namespace Source

open Text Memory

variable {size : Nat}

/-- Bytes with addresses in a row. -/
def consecutive (position : Nat) (values : List Byte) : List (Nat × Byte) :=
  (List.range' position values.length).zip values

namespace Meaning

/-- The bytes of a line that starts at a position. -/
def placements (position : Nat) : Meaning → List (Nat × Byte)
  | .position _ => []
  | .bytes values => consecutive position values

/-- The position after a line that starts at a position. -/
def next (position : Nat) : Meaning → Nat
  | .position address => address
  | .bytes values => position + values.length

end Meaning

/-- The bytes of a program in the order in which its lines list them. -/
def placements (position : Nat) : List Meaning → List (Nat × Byte)
  | [] => []
  | meaning :: meanings =>
    meaning.placements position ++ placements (meaning.next position) meanings

/-- Each line has a meaning, without its comment and the blanks around it. -/
def Written (size : Nat) : List (List Char) → List Meaning → Prop :=
  List.Forall₂ fun raw meaning => Means size (trim (uncommented raw)) meaning

theorem consecutive_cons (position : Nat) (value : Byte) (values : List Byte) :
    consecutive position (value :: values) =
      (position, value) :: consecutive (position + 1) values := by
  simp only [consecutive, List.length_cons, List.range'_succ, List.zip_cons_cons]

namespace Draft

/-- The draft after a line that nothing is wrong with. -/
def extend (draft : Draft size) (meaning : Meaning) : Draft size :=
  ⟨draft.memory.placed (meaning.placements draft.position), meaning.next draft.position⟩

theorem extend_cons (draft : Draft size) (value : Byte) (values : List Byte) :
    draft.extend (.bytes (value :: values)) =
      extend ⟨draft.memory.set draft.position value, draft.position + 1⟩ (.bytes values) := by
  have position : draft.position + (values.length + 1) = draft.position + 1 + values.length := by
    omega
  simp only [extend, Meaning.placements, Meaning.next, consecutive_cons, placed_cons,
    List.length_cons, position]

theorem memory_extends (draft : Draft size) (meanings : List Meaning) :
    (meanings.foldl extend draft).memory =
      draft.memory.placed (Source.placements draft.position meanings) := by
  induction meanings generalizing draft with
  | nil => rfl
  | cons meaning meanings ih =>
    rw [List.foldl_cons, ih, Source.placements, placed_append]
    rfl

end Draft

namespace Load

variable {draft after : Draft size} {values : List Byte}

theorem bind_eq_ok {α β : Type} {action : EStateM Problem (Draft size) α}
    {next : α → EStateM Problem (Draft size) β} {result : β} :
    (action >>= next) draft = .ok result after ↔
      ∃ value between, action draft = .ok value between ∧
        next value between = .ok result after := by
  change EStateM.bind action next draft = _ ↔ _
  unfold EStateM.bind
  cases action draft <;> simp

theorem throw_ne_ok {problem : Problem} :
    (throw problem : Load size Unit) draft ≠ .ok () after := nofun

/-- Short of the last position of all, a byte finds a place exactly where there is a cell. -/
theorem place_eq_ok (addressable : size ≤ 0xFFFF) {value : Byte} :
    place value draft = .ok () after ↔ draft.position < size ∧
      after = ⟨draft.memory.set draft.position value, draft.position + 1⟩ := by
  obtain ⟨memory, position⟩ := draft
  by_cases inside : position < size
  · have next : position + 1 < addressCount := by
      unfold addressCount
      omega
    simp [place_apply, inside, next, eq_comm]
  · simp [place_apply, inside]

theorem placeAll_eq_ok (addressable : size ≤ 0xFFFF) :
    placeAll values draft = .ok () after ↔
      Within size (consecutive draft.position values) ∧ after = draft.extend (.bytes values) := by
  induction values generalizing draft with
  | nil =>
    constructor
    · rintro ⟨⟩
      exact ⟨List.forall_mem_nil _, rfl⟩
    · rintro ⟨-, rfl⟩
      rfl
  | cons value values ih =>
    have split : placeAll (value :: values) draft = .ok () after ↔
        ∃ _ between, place value draft = .ok () between ∧ placeAll values between = .ok () after :=
      bind_eq_ok
    rw [split, consecutive_cons, within_cons, Draft.extend_cons]
    simp only [place_eq_ok addressable, ih]
    constructor
    · rintro ⟨_, _, ⟨inside, rfl⟩, within, rfl⟩
      exact ⟨⟨inside, within⟩, rfl⟩
    · rintro ⟨⟨inside, within⟩, rfl⟩
      exact ⟨(), _, ⟨inside, rfl⟩, within, rfl⟩

/-- A statement is carried out exactly if it has a meaning whose bytes have room. -/
theorem statement_eq_ok (addressable : size ≤ 0xFFFF) {statement : Statement} :
    Load.statement statement draft = .ok () after ↔
      ∃ meaning, statement.meaning? size = some meaning ∧
        Within size (meaning.placements draft.position) ∧ after = draft.extend meaning := by
  cases statement with
  | blank =>
    simp only [Statement.meaning?, Option.some.injEq, exists_eq_left']
    exact @placeAll_eq_ok size draft after [] addressable
  | label address =>
    cases address with
    | error problem => simp [Load.statement, Statement.meaning?, throw_ne_ok]
    | ok address =>
      by_cases inside : address < size
      · have unplaced : Within size (Meaning.placements draft.position (.position address)) :=
          List.forall_mem_nil _
        simp only [Load.statement, moveTo, Statement.meaning?, if_pos inside, Option.some.injEq,
          exists_eq_left', unplaced, true_and, EStateM.Result.ok.injEq]
        exact eq_comm
      · simp [Load.statement, Statement.meaning?, moveTo, inside]
  | instruction opcode operands =>
    cases operands with
    | error problem => simp [Load.statement, Statement.meaning?, throw_ne_ok]
    | ok values =>
      simp only [Statement.meaning?, Option.some.injEq, exists_eq_left']
      exact placeAll_eq_ok addressable
  | unknown name => simp [Load.statement, Statement.meaning?, throw_ne_ok]
  | bytes values flaw =>
    cases flaw with
    | none =>
      simp only [Statement.meaning?, Option.some.injEq, exists_eq_left']
      exact placeAll_eq_ok addressable
    | some problem => simp [Load.statement, Statement.meaning?, bind_eq_ok, throw_ne_ok]

end Load

namespace Progress

variable {progress : Progress size} {after : Draft size}

/-- Nothing was wrong with the lines so far, and this is what they left. -/
def Flawless (progress : Progress size) (draft : Draft size) : Prop :=
  progress.diagnostics = #[] ∧ progress.draft = draft

theorem flawless_line {number : Nat} {raw : List Char} :
    (progress.line number raw).Flawless after ↔
      ∃ draft, progress.Flawless draft ∧
        Load.statement (Statement.ofLine raw) draft = .ok () after := by
  obtain ⟨draft, diagnostics, records⟩ := progress
  cases outcome : Load.statement (Statement.ofLine raw) draft <;>
    simp [Flawless, line, outcome, and_assoc]

/-- The lines extend the draft one after another, each from where the one before it stopped. -/
theorem flawless_lines (addressable : size ≤ 0xFFFF) {numbered : List (List Char × Nat)} :
    (numbered.foldl (fun progress (line, number) => progress.line number line)
        progress).Flawless after ↔
      ∃ draft meanings, progress.Flawless draft ∧
        Written size (numbered.map Prod.fst) meanings ∧
        Within size (placements draft.position meanings) ∧
        after = meanings.foldl Draft.extend draft := by
  induction numbered generalizing progress with
  | nil =>
    constructor
    · intro flawless
      exact ⟨after, [], flawless, .nil, List.forall_mem_nil _, rfl⟩
    · rintro ⟨draft, meanings, flawless, read, -, rfl⟩
      cases read
      exact flawless
  | cons first numbered ih =>
    obtain ⟨raw, number⟩ := first
    rw [List.foldl_cons, ih]
    constructor
    · rintro ⟨_, meanings, reached, read, within, rfl⟩
      obtain ⟨draft, flawless, done⟩ := flawless_line.mp reached
      obtain ⟨meaning, meant, first, rfl⟩ := (Load.statement_eq_ok addressable).mp done
      exact ⟨draft, meaning :: meanings, flawless, .cons (means_iff.mpr meant) read,
        within_append.mpr ⟨first, within⟩, rfl⟩
    · rintro ⟨draft, _, flawless, _ | ⟨means, read⟩, within, rfl⟩
      obtain ⟨first, within⟩ := within_append.mp within
      have done := (Load.statement_eq_ok addressable).mpr ⟨_, means_iff.mp means, first, rfl⟩
      exact ⟨_, _, flawless_line.mpr ⟨draft, flawless, done⟩, read, within, rfl⟩

theorem result_eq_ok {memory : Memory size} :
    progress.result = .ok memory ↔ ∃ draft, progress.Flawless draft ∧ draft.memory = memory := by
  unfold result
  split <;> simp_all [Flawless]

end Progress

/-- Loading comes to a memory exactly if the text is a program whose bytes have room, and the
memory is the one that these bytes make of the initial one. -/
theorem load_eq_ok (addressable : size ≤ 0xFFFF) {memory result : Memory size} {text : List Char} :
    (load memory text).result = .ok result ↔
      ∃ meanings, Written size (lines text) meanings ∧ Within size (placements 0 meanings) ∧
        result = memory.placed (placements 0 meanings) := by
  simp only [load, Progress.result_eq_ok, Progress.flawless_lines addressable, List.zipIdx_map_fst]
  constructor
  · rintro ⟨_, ⟨_, meanings, ⟨-, rfl⟩, written, within, rfl⟩, rfl⟩
    exact ⟨meanings, written, within, Draft.memory_extends _ meanings⟩
  · rintro ⟨meanings, written, within, rfl⟩
    exact ⟨_, ⟨_, meanings, ⟨rfl, rfl⟩, written, within, rfl⟩, Draft.memory_extends _ meanings⟩

/-- The loader accepts exactly the programs that have room, and loads them as they are written: the
last byte for an address is in its cell, and the other cells are as they were. -/
theorem load_accepts_programs_with_room (addressable : size ≤ 0xFFFF) (memory : Memory size)
    (text : List Char) :
    ((∃ result, (load memory text).result = .ok result) ↔
        ∃ meanings, Written size (lines text) meanings ∧
          ∀ placement ∈ placements 0 meanings, placement.1 < size) ∧
      ∀ meanings, Written size (lines text) meanings →
        (∀ placement ∈ placements 0 meanings, placement.1 < size) →
        ∃ result, (load memory text).result = .ok result ∧ ∀ address, result.get? address =
          ((placements 0 meanings).reverse.lookup address).or (memory.get? address) := by
  simp only [load_eq_ok addressable]
  refine ⟨⟨?_, ?_⟩, ?_⟩
  · rintro ⟨_, meanings, written, within, -⟩
    exact ⟨meanings, written, within⟩
  · rintro ⟨meanings, written, within⟩
    exact ⟨_, meanings, written, within, rfl⟩
  · intro meanings written within
    exact ⟨_, ⟨meanings, written, within, rfl⟩, get?_placed within memory⟩

theorem load_of_overlapping_lines :
    ∃ result : Memory 4,
      (load .zeros "1: # here\nhlt\n0x2A 7\r\n\n 1 :\npRn 3".toList).result = .ok result ∧
        result.get? 0 = some 0 ∧ result.get? 1 = some Opcode.prn.byte ∧ result.get? 2 = some 3 ∧
        result.get? 3 = some 7 := by
  have split : lines "1: # here\nhlt\n0x2A 7\r\n\n 1 :\npRn 3".toList =
      ["1: # here".toList, "hlt".toList, "0x2A 7\r".toList, [], " 1 :".toList,
        "pRn 3".toList] := by decide
  have written : Written 4 (lines "1: # here\nhlt\n0x2A 7\r\n\n 1 :\npRn 3".toList)
      [.position 1, .bytes [1], .bytes [42, 7], .bytes [], .position 1, .bytes [67, 3]] := by
    simp only [split, Written, List.forall₂_cons, List.forall₂_nil_left_iff, means_iff]
    decide
  obtain ⟨result, loaded, cells⟩ :=
    (load_accepts_programs_with_room (by decide) .zeros _).2 _ written (by decide)
  exact ⟨result, loaded, (cells 0).trans (by decide), (cells 1).trans (by decide),
    (cells 2).trans (by decide), (cells 3).trans (by decide)⟩

end Source
end ByteMachine
