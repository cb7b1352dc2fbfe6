import ByteMachine.Proofs.Machine.Drive
import ByteMachine.Proofs.Machine.Reachable
import ByteMachine.Proofs.Text.Numeral

/-! The summary line of a processor, taken apart. Its numbers end at marks that no number contains,
so two summaries are the same exactly if they show the same. They show only three bits of the flags;
the others are clear in every processor that a run comes to, so there the line tells all of the
state but whether the processor is halted. -/
namespace ByteMachine

variable {size : Nat}

namespace Text

/-- A text is cut in one way only at the first of its marks. -/
theorem append_mark_inj {mark : Char} {left left' right right' : List Char} (absent : mark ∉ left)
    (absent' : mark ∉ left') :
    left ++ mark :: right = left' ++ mark :: right' ↔ left = left' ∧ right = right' := by
  have front {text : List Char} (absent : mark ∉ text) (rest : List Char) :
      (text ++ mark :: rest).takeWhile (· != mark) = text := by
    rw [List.takeWhile_append_of_pos fun c member => by
      simpa using fun same : c = mark => absent (same ▸ member)]
    simp
  constructor
  · intro same
    have first : left = left' := by
      rw [← front absent right, same, front absent' right']
    subst first
    exact ⟨rfl, (List.cons.inj (List.append_cancel_left same)).2⟩
  · rintro ⟨rfl, rfl⟩
    rfl

/-- Pieces can be told apart again if they do not hold the mark that begins what is between them. -/
theorem intercalate_inj {mark : Char} {gap : List Char} {left right : List (List Char)}
    (length : left.length = right.length) (absent : ∀ piece ∈ left, mark ∉ piece)
    (absent' : ∀ piece ∈ right, mark ∉ piece)
    (same : (mark :: gap).intercalate left = (mark :: gap).intercalate right) : left = right := by
  induction left generalizing right with
  | nil => exact (List.length_eq_zero_iff.mp length.symm).symm
  | cons piece left ih =>
    obtain ⟨piece', right, rfl⟩ := List.exists_cons_of_length_eq_add_one length.symm
    obtain ⟨first, rest⟩ := List.forall_mem_cons.mp absent
    obtain ⟨first', rest'⟩ := List.forall_mem_cons.mp absent'
    have shorter : left.length = right.length := Nat.succ.inj length
    cases left with
    | nil =>
      obtain rfl := List.length_eq_zero_iff.mp shorter.symm
      simpa using same
    | cons second left =>
      obtain ⟨second', right, rfl⟩ := List.exists_cons_of_length_eq_add_one shorter.symm
      rw [List.intercalate_cons_cons, List.intercalate_cons_cons, List.append_assoc,
        List.append_assoc, List.cons_append, List.cons_append, append_mark_inj first first'] at same
      obtain ⟨rfl, same⟩ := same
      rw [ih shorter rest rest' (List.append_cancel_left same)]

end Text

namespace Flags

theorem length_text (flags : Flags) : flags.text.toList.length = 3 := by
  rw [Flags.text, String.toList_ofList]
  rfl

theorem text_inj {flags other : Flags} (h : flags ∈ outcomes) (h' : other ∈ outcomes) :
    flags.text = other.text ↔ flags = other := by
  have table : ∀ flags ∈ outcomes, ∀ other ∈ outcomes,
      flags.text = other.text ↔ flags = other := by
    decide
  exact table flags h other h'

end Flags

namespace Processor

open Text

variable {left right : Processor}

/-- The processors that runs come to from the start, each on a memory of its own. A run may be a
step or be driven to its end, and may have met a fault. -/
inductive Reached : Processor → Prop where
  | initial : Reached .initial
  | step {size : Nat} {machine : Machine size} (addressable : size ≤ 0xFFFF)
      (reached : Reached machine.processor) : Reached (Exec.step.leaves machine).processor
  | drive {size : Nat} {machine : Machine size} {pace : Pace} {limit : Nat}
      (addressable : size ≤ 0xFFFF) (reached : Reached machine.processor) :
      Reached ((Exec.drive pace limit 0).leaves machine).processor

theorem toList_trace (p : Processor) :
    p.trace.toList = ['P', 'C', ':'] ++ ((upperHex 2 p.pc.toNat).toList ++
      ' ' :: (['F', 'L', ':'] ++ (p.flags.text.toList ++ ([' ', 'R', ':', '['] ++
        ([',', ' '].intercalate (p.registers.toList.map fun b => (upperHex 2 b.toNat).toList) ++
          [']']))))) := by
  simp only [trace, String.toList_append, String.toList_intercalate, List.map_map,
    List.append_assoc]
  rfl

/-- Summaries are the same exactly if they show the same. -/
theorem trace_eq_iff : left.trace = right.trace ↔
    left.pc = right.pc ∧ left.flags.text = right.flags.text ∧ left.registers = right.registers := by
  constructor
  · intro same
    have same := congrArg String.toList same
    rw [toList_trace, toList_trace] at same
    have space (n : Nat) := not_mem_upperHex (c := ' ') (by decide) 2 n
    have comma (n : Nat) := not_mem_upperHex (c := ',') (by decide) 2 n
    obtain ⟨pc, same⟩ := (append_mark_inj (space _) (space _)).mp (List.append_cancel_left same)
    obtain ⟨flags, same⟩ := List.append_inj (List.append_cancel_left same)
      ((Flags.length_text _).trans (Flags.length_text _).symm)
    have cells := intercalate_inj (by simp [RegisterFile.toList]) (by simp [comma])
      (by simp [comma]) (List.append_cancel_right (List.append_cancel_left same))
    refine ⟨?_, String.toList_inj.mp flags, ?_⟩
    · exact UInt16.toNat_inj.mp (upperHex_inj.mp (String.toList_inj.mp pc))
    · have shown : Function.Injective fun b : Byte => (upperHex 2 b.toNat).toList := by
        intro b b' same
        exact UInt8.toNat_inj.mp (upperHex_inj.mp (String.toList_inj.mp same))
      have cells := List.map_injective_iff.mpr shown cells
      exact congrArg RegisterFile.mk (Vector.toList_inj.mp cells)
  · rintro ⟨pc, flags, registers⟩
    rw [trace, trace, pc, flags, registers]

theorem reached_after {size : Nat} (addressable : size ≤ 0xFFFF) {machine : Machine size}
    (reached : Reached machine.processor) (count : Nat) :
    Reached (machine.after count).processor := by
  induction count with
  | zero => exact reached
  | succ count ih => exact .step addressable ih

/-- A comparison is the only instruction that writes the flags. -/
theorem flags_after_mem {size : Nat} {machine : Machine size}
    (known : machine.processor.flags ∈ Flags.outcomes) (count : Nat) :
    (machine.after count).configuration.processor.flags ∈ Flags.outcomes := by
  induction count with
  | zero => exact known
  | succ count ih =>
    obtain ⟨i, flow, c, _, _, effect, left⟩ | ⟨_, left⟩ := Machine.executes?_cases machine count
    · rw [left]
      change c.processor.flags ∈ _
      rw [effect.flags]
      cases i with
      | cmp x y => exact List.mem_cons_of_mem _ (Flags.compare_mem_compared _ _)
      | hlt | ldi | prn | arithmetic | push | pop | call | ret | jmp | branch => exact ih
    · rwa [left]

theorem Reached.flags {p : Processor} (reached : p.Reached) : p.flags ∈ Flags.outcomes := by
  induction reached with
  | initial => decide
  | step _ _ ih => exact flags_after_mem ih 1
  | @drive size machine pace limit _ _ ih =>
    obtain ⟨steps, left⟩ := Exec.drive_leaves pace limit 0 machine
    change ((Exec.drive pace limit 0).leaves machine).configuration.processor.flags ∈ _
    rw [left]
    exact flags_after_mem ih steps

/-- Processors that runs have come to show the same summary only if they have the same program
counter, flags and registers, whatever memories they ran on. -/
theorem trace_tells_reached_state (reachedLeft : left.Reached) (reachedRight : right.Reached)
    (same : left.trace = right.trace) :
    left.pc = right.pc ∧ left.flags.bits = right.flags.bits ∧
      ∀ register, left.registers.get register = right.registers.get register := by
  obtain ⟨pc, text, registers⟩ := trace_eq_iff.mp same
  refine ⟨pc, ?_, fun register => by rw [registers]⟩
  rw [(Flags.text_inj reachedLeft.flags reachedRight.flags).mp text]

-- No run sets this bit of the flags, and no summary would show it.
example : ({ initial with flags := ⟨8⟩ } : Processor).trace = initial.trace := by
  decide

/-- A jump and a halt that leave the program counter in one place, in memories of different
sizes. -/
theorem trace_of_jump_and_halt :
    let jump : Machine 5 := .start (Memory.zeros.overwrite 0 #[0x99, 0, 4, 0x50, 0])
    let halt : Machine 9 := .start (Memory.zeros.overwrite 0 #[0x99, 0, 4, 1])
    let left := (jump.after 2).processor
    let right := ((Exec.drive (.clocked 7) 2 0).leaves halt).processor
    left.trace = right.trace ∧ left.pc = right.pc ∧ left.flags.bits = right.flags.bits ∧
      ∀ register, left.registers.get register = right.registers.get register := by
  intro jump halt left right
  have same : left.trace = right.trace := by decide +kernel
  exact ⟨same, trace_tells_reached_state (reached_after (by decide) .initial 2)
    (.drive (by decide) .initial) same⟩

end Processor

end ByteMachine
