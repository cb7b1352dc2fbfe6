import ByteMachine.Proofs.Source.Listing
import ByteMachine.Proofs.Source.Reports
import Mathlib.Data.List.Nodup

/-! Programs made of others. All that a line knows of those before it is the position they left, and
a label forgets it; so a text that begins with a label is loaded behind another as it is alone, and
parts that each begin with one can be put in any order, as long as no two want the same cells. -/
namespace ByteMachine

namespace Memory

variable {size : Nat}

theorem set_comm (memory : Memory size) {address other : Nat} (different : address ≠ other)
    (value value' : Byte) :
    (memory.set address value).set other value' = (memory.set other value').set address value := by
  refine ext_get? fun cell => ?_
  simp only [get?_set]
  by_cases same : address = cell
  · rw [if_pos same, if_neg (same ▸ Ne.symm different), if_pos same]
  · rw [if_neg same, if_neg same]

/-- Bytes for different cells can be put there in any order. -/
theorem placed_perm {bytes bytes' : List (Nat × Byte)} (reordered : bytes'.Perm bytes)
    (distinct : (bytes.map Prod.fst).Nodup) (memory : Memory size) :
    memory.placed bytes' = memory.placed bytes := by
  refine (reordered.symm.foldl_eq' (fun first member second member' between => ?_) memory).symm
  by_cases same : first.1 = second.1
  · rw [List.inj_on_of_nodup_map distinct member member' same]
  · exact set_comm between same first.2 second.2

/-- A cell that gets no byte keeps its own. -/
theorem get?_placed_of_not_mem {bytes : List (Nat × Byte)} (within : Within size bytes)
    {address : Nat} (unused : address ∉ bytes.map Prod.fst) (memory : Memory size) :
    (memory.placed bytes).get? address = memory.get? address := by
  have none : bytes.reverse.lookup address = none := by
    rw [List.lookup_eq_none_iff]
    intro placement member
    rw [bne_iff_ne]
    rintro rfl
    exact unused (List.mem_map_of_mem (List.mem_reverse.mp member))
  rw [get?_placed within, none, Option.none_or]

end Memory

namespace Source

open Text Memory

variable {size : Nat}

/-- The first line that is not blank is a label of an address in the memory. -/
inductive Anchored (size : Nat) : List (List Char) → Prop where
  | label {raw rows address} (labelled : Means size (trim (uncommented raw)) (.position address)) :
      Anchored size (raw :: rows)
  | blank {raw rows} (blank : trim (uncommented raw) = []) (rest : Anchored size rows) :
      Anchored size (raw :: rows)

/-! Texts one behind another. -/

theorem splitOn_newline (text : List Char) :
    text.splitOn '\n' = lines text ∨ text.splitOn '\n' = lines text ++ [[]] := by
  simp only [lines]
  split
  · rename_i ended
    exact .inr (List.dropLast_append_getLast? _ ended).symm
  · exact .inl rfl

theorem length_splitOn (text : List Char) :
    (text.splitOn '\n').length = text.count '\n' + 1 := by
  induction text with
  | nil => rfl
  | cons c text ih =>
    rw [List.splitOn_cons_eq_if_modifyHead, List.count_cons]
    split
    · rw [List.length_cons, ih]
    · rw [List.length_modifyHead, ih, Nat.add_zero]

section Reports

variable {raw : List Char} {rows : List (List Char)} {number position : Nat}

theorem ofLine_of_blank (blank : trim (uncommented raw) = []) : Statement.ofLine raw = .blank := by
  rw [Statement.ofLine, blank]
  rfl

theorem ofLine_of_position {address : Nat}
    (labelled : Means size (trim (uncommented raw)) (.position address)) :
    Statement.ofLine raw = .label (.ok address) ∧ address < size := by
  have meant := means_iff.mp labelled
  generalize Statement.ofLine raw = statement at meant
  cases statement with
  | label known =>
    cases known with
    | error => contradiction
    | ok address =>
      simp only [Statement.meaning?, Option.ite_none_right_eq_some, Option.some.injEq,
        Meaning.position.injEq] at meant
      exact ⟨by rw [meant.2], meant.2 ▸ meant.1⟩
  | instruction _ operands => cases operands <;> cases meant
  | bytes _ flaw => cases flaw <;> cases meant
  | blank | unknown => cases meant

theorem reports_cons_blank (blank : trim (uncommented raw) = []) (within : position ≤ size) :
    reports size number position (raw :: rows) = reports size (number + 1) position rows := by
  have room : position + 0 ≤ size := within
  rw [reports, ofLine_of_blank blank]
  change ((if position + 0 ≤ size then none else _).toList.map _) ++
    reports size _ (min (position + 0) size) rows = _
  rw [if_pos room, Nat.min_eq_left room]
  rfl

theorem reports_raised (count : Nat) : reports size (number + count) position rows =
    (reports size number position rows).map (·.raised count) := by
  induction rows generalizing number position with
  | nil => rfl
  | cons raw rows ih =>
    rw [reports, Nat.add_right_comm, ih, reports, List.map_append, List.map_map]
    rfl

theorem reports_cons_label {address : Nat} (within : position ≤ size)
    (labelled : Means size (trim (uncommented raw)) (.position address)) :
    reports size number position (raw :: rows) = reports size (number + 1) address rows := by
  obtain ⟨read, inside⟩ := ofLine_of_position labelled
  have room : position + 0 ≤ size := within
  rw [reports, read]
  change ((if position + 0 ≤ size then (if address < size then none else _) else _).toList.map _) ++
    reports size _ (if address < size then address else position) rows = _
  rw [if_pos room, if_pos inside, if_pos inside]
  rfl

/-- A label makes the position in front of it irrelevant. -/
theorem reports_of_anchored (anchored : Anchored size rows) (within : position ≤ size)
    {other : Nat} (within' : other ≤ size) :
    reports size number position rows = reports size number other rows := by
  induction anchored generalizing number with
  | label labelled => rw [reports_cons_label within labelled, reports_cons_label within' labelled]
  | blank blank _ ih => rw [reports_cons_blank blank within, reports_cons_blank blank within', ih]

end Reports

/-- The reports on a text do not tell whether its last line is ended by a newline. -/
theorem reports_splitOn (text : List Char) :
    reports size 1 0 (text.splitOn '\n') = reports size 1 0 (lines text) := by
  rcases splitOn_newline text with same | ended
  · rw [same]
  · have within : behind size 0 (lines text) ≤ size := behind_le (Nat.zero_le size)
    rw [ended, reports_append, reports_cons_blank rfl within]
    exact List.append_nil _

/-- A text that begins with a label has the errors behind another text that it has alone, further
down. -/
theorem errors_joined (addressable : size ≤ 0xFFFF) (memory other : Memory size)
    {second : List Char} (anchored : Anchored size (lines second)) (first : List Char) :
    (load memory (first ++ '\n' :: second)).errors = (load memory first).errors ++
      (load other second).errors.map (·.raised (first.count '\n' + 1)) := by
  have within : behind size 0 (first.splitOn '\n') ≤ size := behind_le (Nat.zero_le size)
  simp only [Progress.errors_load addressable]
  rw [lines_append_newline, reports_append, reports_splitOn, length_splitOn, reports_raised,
    reports_of_anchored anchored within (Nat.zero_le size)]

section Placements

variable {position : Nat}

/-- The position behind the lines that have these meanings. -/
def reached (position : Nat) (meanings : List Meaning) : Nat :=
  meanings.foldl (fun position meaning => meaning.next position) position

theorem placements_append (front back : List Meaning) :
    placements position (front ++ back) =
      placements position front ++ placements (reached position front) back := by
  induction front generalizing position with
  | nil => rfl
  | cons meaning front ih =>
    rw [List.cons_append, placements, ih, placements, List.append_assoc]
    rfl

theorem placements_of_anchored {rows : List (List Char)} (anchored : Anchored size rows)
    {meanings : List Meaning} (written : Written size rows meanings) (other : Nat) :
    placements position meanings = placements other meanings := by
  induction anchored generalizing meanings with
  | label labelled =>
    cases written with
    | cons means _ =>
      cases Option.some.inj ((means_iff.mp labelled).symm.trans (means_iff.mp means))
      rfl
  | blank blank _ ih =>
    cases written with
    | cons means rest =>
      rw [blank, means_blank] at means
      subst means
      have later := ih rest
      exact later

end Placements

theorem written_splitOn {text : List Char} {meanings : List Meaning}
    (written : Written size (lines text) meanings) :
    ∃ same, Written size (text.splitOn '\n') same ∧ placements 0 same = placements 0 meanings := by
  rcases splitOn_newline text with same | ended
  · exact ⟨meanings, same ▸ written, rfl⟩
  · have last : Written size [[]] [.bytes []] := .cons .blank .nil
    refine ⟨meanings ++ [.bytes []], ended ▸ List.rel_append written last, ?_⟩
    rw [placements_append]
    exact List.append_nil _

theorem load_joined (addressable : size ≤ 0xFFFF) {memory between result : Memory size}
    {first second : List Char} (anchored : Anchored size (lines second))
    (loaded : (load memory first).result = .ok between)
    (loaded' : (load between second).result = .ok result) :
    (load memory (first ++ '\n' :: second)).result = .ok result := by
  obtain ⟨before, written, within, rfl⟩ := (load_eq_ok addressable).mp loaded
  obtain ⟨after, written', within', rfl⟩ := (load_eq_ok addressable).mp loaded'
  obtain ⟨front, split, same⟩ := written_splitOn written
  have placed : placements 0 (front ++ after) = placements 0 before ++ placements 0 after := by
    rw [placements_append, same, placements_of_anchored anchored written' 0]
  refine (load_eq_ok addressable).mpr ⟨front ++ after, ?_, ?_, ?_⟩
  · rw [lines_append_newline]
    exact List.rel_append split written'
  · rw [placed]
    exact within_append.mpr ⟨within, within'⟩
  · rw [placed, placed_append]

/-- Loading a text and then one that begins with a label is loading both. The errors of the second
are those that it has by itself, on lines further down, and if there are none of either, the second
is loaded into the memory that the first has left. -/
theorem joined_texts_load_in_turn (addressable : size ≤ 0xFFFF) (memory : Memory size)
    (first : List Char) {second : List Char} (anchored : Anchored size (lines second)) :
    let joined := load memory (first ++ '\n' :: second)
    (∀ other : Memory size, joined.errors = (load memory first).errors ++
        (load other second).errors.map (·.raised (first.count '\n' + 1))) ∧
      ∀ other : Memory size, (load memory first).errors = [] → (load other second).errors = [] →
        ∃ between result, (load memory first).result = .ok between ∧
          (load between second).result = .ok result ∧ joined.result = .ok result := by
  intro joined
  refine ⟨fun other => errors_joined addressable memory other anchored first, ?_⟩
  intro other flawless flawless'
  obtain ⟨between, loaded⟩ := Progress.exists_result_iff.mpr flawless
  rw [Progress.errors_load addressable other,
    ← Progress.errors_load addressable between] at flawless'
  obtain ⟨result, loaded'⟩ := Progress.exists_result_iff.mpr flawless'
  exact ⟨between, result, loaded, loaded', load_joined addressable anchored loaded loaded'⟩

/-- A comment and a blank line before the label count as lines, and the first text moves nothing:
the bytes start at the label, and the last of them has no room. -/
theorem errors_of_joined_texts :
    (load (.zeros : Memory 4) "LDI 0\nHLT\n# next\n\n 1 :\n5 6 7 8".toList).errors =
        [⟨1, .operandCount 2 1 "LDI 0"⟩, ⟨6, .noRoom 4⟩] ∧
      ∃ between result : Memory 4, (load .zeros "HLT\n".toList).result = .ok between ∧
        (load between "2:\n5 6".toList).result = .ok result ∧
        (load .zeros "HLT\n\n2:\n5 6".toList).result = .ok result := by
  have label : Means 4 (trim (uncommented " 1 :".toList)) (.position 1) :=
    means_iff.mpr (by decide)
  have label' : Means 4 (trim (uncommented "2:".toList)) (.position 2) :=
    means_iff.mpr (by decide)
  have anchored : Anchored 4 (lines "# next\n\n 1 :\n5 6 7 8".toList) :=
    .blank (by decide) (.blank (by decide) (.label label))
  have anchored' : Anchored 4 (lines "2:\n5 6".toList) := .label label'
  have first : (load (.zeros : Memory 4) "LDI 0\nHLT".toList).errors =
      [⟨1, .operandCount 2 1 "LDI 0"⟩] := by decide +kernel
  have second : (load (.zeros : Memory 4) "# next\n\n 1 :\n5 6 7 8".toList).errors =
      [⟨4, .noRoom 4⟩] := by decide +kernel
  constructor
  · have joined := joined_texts_load_in_turn (by decide) .zeros "LDI 0\nHLT".toList anchored
    have joined := joined.1 .zeros
    rw [first, second] at joined
    exact joined
  · exact (joined_texts_load_in_turn (by decide) .zeros "HLT\n".toList anchored').2 .zeros
      (by decide +kernel) (by decide +kernel)

/-! Parts in any order. -/

/-- A part of a program: a label, and lines that mean bytes behind it. -/
structure Segment (size : Nat) where
  label : List Char
  body : List (List Char)
  address : Nat
  rows : List (List Byte)
  single : ∀ line ∈ label :: body, '\n' ∉ line
  labelled : Means size (trim (uncommented label)) (.position address)
  listed : Written size body (rows.map .bytes)

namespace Segment

variable (segment : Segment size)

def lines : List (List Char) := segment.label :: segment.body

def text : List Char := segment.lines.flatMap (· ++ ['\n'])

def bytes : List Byte := segment.rows.flatten

def stop : Nat := segment.address + segment.bytes.length

/-- The address is one of those that the bytes of the segment go to. -/
def Covers (address : Nat) : Prop := segment.address ≤ address ∧ address < segment.stop

instance (address : Nat) : Decidable (segment.Covers address) :=
  inferInstanceAs (Decidable (_ ∧ _))

def Disjoint (first second : Segment size) : Prop :=
  ∀ address, first.Covers address → ¬ second.Covers address

def meanings : List Meaning := .position segment.address :: segment.rows.map .bytes

def placements : List (Nat × Byte) := consecutive segment.address segment.bytes

theorem lines_text (order : List (Segment size)) :
    Text.lines (order.flatMap text) = order.flatMap lines := by
  have single : ∀ line ∈ order.flatMap lines, '\n' ∉ line := by
    intro line member
    obtain ⟨segment, _, own⟩ := List.mem_flatMap.mp member
    exact segment.single line own
  rw [← Text.lines_flatMap single, List.flatMap_assoc]
  rfl

theorem written (order : List (Segment size)) :
    Written size (order.flatMap lines) (order.flatMap meanings) := by
  induction order with
  | nil => exact .nil
  | cons segment order ih =>
    have own : Written size segment.lines segment.meanings := .cons segment.labelled segment.listed
    exact List.rel_append own ih

/-- The bytes of a segment go where its label says, whatever stands in front of it. -/
theorem placements_flatMap (position : Nat) (order : List (Segment size)) :
    Source.placements position (order.flatMap meanings) = order.flatMap placements := by
  induction order generalizing position with
  | nil => rfl
  | cons segment order ih =>
    have own : Source.placements position segment.meanings = segment.placements :=
      placements_bytes segment.address segment.rows
    rw [List.flatMap_cons, List.flatMap_cons, placements_append, ih, own]

theorem map_fst_placements (segment : Segment size) :
    segment.placements.map Prod.fst = List.range' segment.address segment.bytes.length :=
  List.map_fst_zip (by simp)

theorem mem_addresses {segment : Segment size} {address : Nat} :
    address ∈ segment.placements.map Prod.fst ↔ segment.Covers address := by
  rw [map_fst_placements, List.mem_range'_1]
  rfl

/-- Segments that cover different addresses never place two bytes at one. -/
theorem nodup_addresses {segments : List (Segment size)} (apart : segments.Pairwise Disjoint) :
    ((segments.flatMap placements).map Prod.fst).Nodup := by
  rw [List.map_flatMap, List.nodup_flatMap]
  constructor
  · intro segment _
    rw [map_fst_placements]
    exact List.nodup_range' 1
  · refine apart.imp fun disjoint address covered covered' => ?_
    exact disjoint address (mem_addresses.mp covered) (mem_addresses.mp covered')

theorem within_placements {segments : List (Segment size)}
    (room : ∀ segment ∈ segments, segment.stop ≤ size) :
    Within size (segments.flatMap placements) := by
  intro placement member
  obtain ⟨segment, known, own⟩ := List.mem_flatMap.mp member
  exact within_consecutive (room segment known) placement own

theorem holds_placed {segment : Segment size} (room : segment.stop ≤ size)
    (memory : Memory size) :
    (memory.placed segment.placements).Holds segment.address segment.bytes := by
  intro k inside
  have fits : segment.address + segment.bytes.length ≤ size := room
  rw [placements, placed_consecutive, get?_overwrite, if_pos (by simp; omega),
    Nat.add_sub_cancel_left, List.getElem?_toArray]

end Segment

/-- Segments for different parts of the memory can be loaded in any order, one directly behind
another. Each puts its bytes in a row from its label on, and the cells that none of them covers stay
as they were. -/
theorem segments_load_in_any_order (addressable : size ≤ 0xFFFF) (memory : Memory size)
    {segments : List (Segment size)} (room : ∀ segment ∈ segments, segment.stop ≤ size)
    (apart : segments.Pairwise Segment.Disjoint) :
    ∃ result : Memory size,
      (∀ order : List (Segment size), order.Perm segments →
        (load memory (order.flatMap Segment.text)).result = .ok result) ∧
      (∀ segment ∈ segments, result.Holds segment.address segment.bytes) ∧
      ∀ address, (∀ segment ∈ segments, ¬ segment.Covers address) →
        result.get? address = memory.get? address := by
  have distinct := Segment.nodup_addresses apart
  have within := Segment.within_placements room
  refine ⟨memory.placed (segments.flatMap Segment.placements), ?_, ?_, ?_⟩
  · intro order reordered
    have room' : ∀ segment ∈ order, segment.stop ≤ size :=
      fun segment member => room segment (reordered.mem_iff.mp member)
    refine (load_eq_ok addressable).mpr ⟨order.flatMap Segment.meanings, ?_, ?_, ?_⟩
    · rw [Segment.lines_text]
      exact Segment.written order
    · rw [Segment.placements_flatMap]
      exact Segment.within_placements room'
    · rw [Segment.placements_flatMap]
      exact (placed_perm (reordered.flatMap_right _) distinct memory).symm
  · intro segment member
    -- any order gives the same memory, so one in which the segment is the last
    obtain ⟨front, back, rfl⟩ := List.append_of_mem member
    have last : ((front ++ back).flatMap Segment.placements ++ segment.placements).Perm
        ((front ++ segment :: back).flatMap Segment.placements) := by
      rw [← List.flatMap_singleton Segment.placements, ← List.flatMap_append]
      exact ((List.perm_append_singleton segment _).trans List.perm_middle.symm).flatMap_right _
    rw [← placed_perm last distinct, placed_append]
    exact Segment.holds_placed (room segment member) _
  · intro address uncovered
    refine get?_placed_of_not_mem within ?_ memory
    intro member
    rw [List.map_flatMap, List.mem_flatMap] at member
    obtain ⟨segment, known, covered⟩ := member
    exact uncovered segment known (Segment.mem_addresses.mp covered)

/-- A halt in the first cell. -/
def haltSegment : Segment 8 where
  label := "0: # code".toList
  body := ["hlt".toList]
  address := 0
  rows := [[1]]
  single := by decide
  labelled := means_iff.mpr (by decide)
  listed := .cons (means_iff.mpr (by decide)) .nil

/-- Two bytes and a blank line. -/
def dataSegment : Segment 8 where
  label := " 0x2 :".toList
  body := ["7 0b1\r".toList, []]
  address := 2
  rows := [[7, 1], []]
  single := by decide
  labelled := means_iff.mpr (by decide)
  listed := .cons (means_iff.mpr (by decide)) (.cons .blank .nil)

theorem data_in_front_of_code :
    ∃ result : Memory 8,
      (load .zeros "0: # code\nhlt\n 0x2 :\n7 0b1\r\n\n".toList).result = .ok result ∧
      (load .zeros " 0x2 :\n7 0b1\r\n\n0: # code\nhlt\n".toList).result = .ok result ∧
      result.get? 0 = some 1 ∧ result.get? 1 = some 0 ∧ result.get? 2 = some 7 ∧
      result.get? 3 = some 1 := by
  have room : ∀ segment ∈ [haltSegment, dataSegment], segment.stop ≤ 8 := by
    simp only [List.forall_mem_cons]
    decide
  have apart : [haltSegment, dataSegment].Pairwise Segment.Disjoint := by
    refine List.pairwise_pair.mpr fun address covered covered' => ?_
    have before : address < 1 := covered.2
    have behind : 2 ≤ address := covered'.1
    omega
  obtain ⟨result, loads, held, kept⟩ := segments_load_in_any_order (by decide) .zeros room apart
  have halt := held haltSegment (by simp)
  have data := held dataSegment (by simp)
  refine ⟨result, loads [haltSegment, dataSegment] (.refl _),
    loads [dataSegment, haltSegment] (.swap _ _ _), halt 0 (by decide), ?_, data 0 (by decide),
    data 1 (by decide)⟩
  have uncovered : ∀ segment ∈ [haltSegment, dataSegment], ¬ segment.Covers 1 := by
    simp only [List.forall_mem_cons]
    decide
  exact kept 1 uncovered

end Source

end ByteMachine
