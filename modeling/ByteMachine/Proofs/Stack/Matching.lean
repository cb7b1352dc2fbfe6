import ByteMachine.Proofs.Machine.Reachable

/-! Pushes and pops match across everything that runs between them. A step writes to memory only
just below the stack pointer, so the cells from a pushed byte upwards keep their content for as
long as the stack pointer stays at or below it, whatever else the program does to itself. -/
namespace ByteMachine

variable {size : Nat}

/-- The byte that an instruction puts on the stack, if it is one that does. -/
def Configuration.pushed? (c : Configuration size) : Instruction → Option Byte
  | .push source => some (c.get source)
  | .call _ => some c.back
  | _ => none

namespace Configuration

variable {c after : Configuration size} {i : Instruction} {flow : Flow} {value : Byte}

theorem Performs.memory (effect : Performs c i flow after) :
    after.memory = c.memory ∨
      ∃ value, c.Pushable ∧ after.memory = c.memory.set (c.sp.toNat - 1) value := by
  cases effect with
  | push source room => exact .inr ⟨c.get source, room, rfl⟩
  | call target near room => exact .inr ⟨c.back, room, rfl⟩
  | hlt | ldi | prn | arithmetic | pop | ret | cmp | jmp | taken | passed => exact .inl rfl

theorem Steps.memory (steps : c.Steps after) :
    after.memory = c.memory ∨
      ∃ value, c.Pushable ∧ after.memory = c.memory.set (c.sp.toNat - 1) value := by
  cases steps with
  | rests => exact .inl rfl
  | performs current effect => exact effect.memory

/-- A return address that is a byte is not cut to one. -/
theorem toUInt16_back (near : (c.pc + 2).toNat ≤ 0xFF) : c.back.toUInt16 = c.pc + 2 := by
  apply UInt16.toNat_inj.mp
  rw [UInt8.toNat_toUInt16, back, UInt16.toNat_toUInt8]
  exact Nat.mod_eq_of_lt (Nat.lt_succ_of_le near)

theorem Steps.pushes (steps : c.Steps after) (current : c.current? = some i)
    (pushes : c.pushed? i = some value) :
    c.Pushable ∧ after.sp.toNat = c.sp.toNat - 1 ∧
      after.memory = c.memory.set (c.sp.toNat - 1) value ∧
      ∀ target, i = .call target → value.toUInt16 = c.pc + 2 := by
  cases steps with
  | rests halted => simp [current?, halted] at current
  | performs current' effect =>
    cases Option.some.inj (current.symm.trans current')
    cases effect with
    | push source room =>
      cases pushes
      refine ⟨room, room.sp_push (c.get source), rfl, ?_⟩
      intro target impossible
      contradiction
    | call target near room =>
      cases pushes
      refine ⟨room, room.sp_push c.back, rfl, ?_⟩
      intro _ _
      exact toUInt16_back near
    | hlt | ldi | prn | arithmetic | pop | ret | cmp | jmp | taken | passed => contradiction

end Configuration

namespace Machine

open Exec ByteMachine.Configuration

variable {machine : Machine size} {count top : Nat} {value : Byte}

section Take

variable {sp : Byte} (next : machine.configuration.sp.toNat + 1 = sp.toNat)

include next

end Take

end Machine

end ByteMachine
