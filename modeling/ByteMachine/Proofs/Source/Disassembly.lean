import ByteMachine.Proofs.Source.Listing

/-! Reading a memory back as the instructions that were loaded into it. Operands may have the values
of opcodes, so where an instruction begins is known only from the one before it; a sweep that
begins in step with the instructions stays in step. -/
namespace ByteMachine

variable {size : Nat}

namespace Memory

/-- The opcode at an address with as many bytes behind it as it takes. -/
def item? (memory : Memory size) (address : Nat) : Option Encoding := do
  let opcode ← Opcode.ofByte? (← memory.get? address)
  let operands ← (List.range' (address + 1) opcode.operandCount).mapM memory.get?
  if complete : operands.length = opcode.operandCount then some ⟨opcode, operands, complete⟩
  else none

/-- The instructions between two addresses, one behind another. -/
def sweep (memory : Memory size) (stop address : Nat) : Option (List Encoding) :=
  if address < stop then do
    let item ← memory.item? address
    let items ← memory.sweep stop (address + item.opcode.length)
    return item :: items
  else if address = stop then some []
  else none
termination_by stop - address
decreasing_by
  unfold Opcode.length
  omega

variable {memory : Memory size} {address : Nat}

theorem mapM_get?_of_holds {bytes : List Byte} (held : memory.Holds address bytes) :
    (List.range' address bytes.length).mapM memory.get? = some bytes := by
  induction bytes generalizing address with
  | nil => rfl
  | cons byte bytes ih =>
    obtain ⟨stored, rest⟩ := holds_cons.mp held
    rw [List.length_cons, List.range'_succ, List.mapM_cons, stored, ih rest]
    rfl

theorem item?_of_holds {item : Encoding} (held : memory.Holds address item.bytes) :
    memory.item? address = some item := by
  obtain ⟨stored, operands⟩ := holds_cons.mp held
  have read := mapM_get?_of_holds operands
  rw [item.complete] at read
  simp [item?, stored, Opcode.ofByte?_byte, read, item.complete]

/-- A sweep over a program finds its instructions: it takes each at its length, which is the number
of its bytes, and so meets the next one at its opcode. -/
theorem sweep_of_holds {items : List Encoding}
    (held : memory.Holds address (Encoding.image items)) :
    memory.sweep (address + (Encoding.image items).length) address = some items := by
  induction items generalizing address with
  | nil =>
    rw [Encoding.image, List.flatMap_nil, List.length_nil, Nat.add_zero, sweep,
      if_neg (Nat.lt_irrefl address), if_pos rfl]
  | cons item items ih =>
    rw [Encoding.image_cons] at held ⊢
    obtain ⟨first, rest⟩ := holds_append.mp held
    have remaining := ih rest
    rw [Nat.add_assoc, ← List.length_append, item.length_bytes] at remaining
    have more : address < address + (item.bytes ++ Encoding.image items).length :=
      Nat.lt_add_of_pos_right (Nat.succ_pos _)
    rw [sweep, if_pos more, item?_of_holds first]
    simp only [Option.bind_eq_bind, Option.bind_some, remaining]
    rfl

end Memory

namespace Source

open Memory

/-- Reading back undoes loading. Every list of instructions can be written as a listing, and
whatever listing of it is loaded, the memory gives the same instructions with the same operands to
a sweep over their length, and is zero behind them. -/
theorem sweep_of_loaded_listing (addressable : size ≤ 0xFFFF) {items : List Encoding}
    (room : (Encoding.image items).length ≤ size) :
    (∃ text, Listing text items) ∧ ∀ text, Listing text items →
      ∃ memory : Memory size, (load .zeros text).result = .ok memory ∧
        memory.sweep (Encoding.image items).length 0 = some items ∧
        ∀ address, (Encoding.image items).length ≤ address → address < size →
          memory.get? address = some 0 := by
  refine ⟨exists_listing items, fun text listing => ?_⟩
  have begins := beginsWith_overwrite room
  refine ⟨_, load_listing addressable listing room .zeros, ?_, ?_⟩
  · have found := sweep_of_holds begins.holds
    rwa [Nat.zero_add] at found
  · intro address behind inside
    rw [begins.cell address inside, List.getD_eq_getElem?_getD, List.getElem?_eq_none behind,
      Option.getD_none]

/-- Operands with the values of opcodes, each written in another way. -/
theorem sweep_of_opcodes_as_operands :
    ∃ memory : Memory 9,
      (load .zeros "ldi 0b1 0x99\n\tPrN 01000011 \nCMP +1 0o0".toList).result = .ok memory ∧
        memory.sweep 8 0 = some [⟨.ldi, [1, 0x99], by decide⟩, ⟨.prn, [0x43], by decide⟩,
          ⟨.cmp, [1, 0], by decide⟩] ∧ memory.get? 8 = some 0 := by
  have none : Gap [] := nofun
  have space : Gap [' '] := List.forall_mem_singleton.mpr ⟨rfl, by decide⟩
  have tab : Gap ['\t'] := List.forall_mem_singleton.mpr ⟨rfl, by decide⟩
  have ldi : Lists ([] ++ ("ldi".toList ++ [' '] ++ ("0b1".toList ++ [' '] ++ "0x99".toList)) ++ [])
      ⟨.ldi, [1, 0x99], by decide⟩ :=
    .line none none (.cons _ nofun space (.cons _ nofun space (.single _)))
      (by unfold Spells; decide) (denote_iff_operands.mp (by unfold Denote; decide))
  have prn : Lists (['\t'] ++ ("PrN".toList ++ [' '] ++ "01000011".toList) ++ [' '])
      ⟨.prn, [0x43], by decide⟩ :=
    .line tab space (.cons _ nofun space (.single _))
      (by unfold Spells; decide) (denote_iff_operands.mp (by unfold Denote; decide))
  have cmp : Lists ([] ++ ("CMP".toList ++ [' '] ++ ("+1".toList ++ [' '] ++ "0o0".toList)) ++ [])
      ⟨.cmp, [1, 0], by decide⟩ :=
    .line none none (.cons _ nofun space (.cons _ nofun space (.single _)))
      (by unfold Spells; decide) (denote_iff_operands.mp (by unfold Denote; decide))
  obtain ⟨memory, loaded, swept, zeros⟩ := (sweep_of_loaded_listing (by decide : 9 ≤ 0xFFFF)
    (by decide)).2 _ (.cons ldi (.cons prn (.last cmp)))
  exact ⟨memory, loaded, swept, zeros 8 (by decide) (by decide)⟩

end Source

end ByteMachine
