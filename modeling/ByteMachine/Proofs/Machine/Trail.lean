import ByteMachine.Machine.Run
import ByteMachine.Proofs.Machine.Step

/-! A machine after any number of steps. A step that faults counts as well and leaves what it
leaves, so these are all the machines that can be reached. A run is a number of first steps that
all succeed. -/
namespace ByteMachine

variable {size : Nat}

namespace Exec

variable {α : Type}

/-- The machine that an action leaves, whether it succeeds or faults. -/
def leaves (action : Exec size α) (machine : Machine size) : Machine size :=
  match action machine with
  | .ok _ after => after
  | .error _ after => after

/-- What an action answers, if it does not fault. -/
def answer? (action : Exec size α) (machine : Machine size) : Option α :=
  match action machine with
  | .ok value _ => some value
  | .error _ _ => none

theorem apply_eq_ok {action : Exec size α} {machine after : Machine size} {value : α} :
    action machine = .ok value after ↔
      action.answer? machine = some value ∧ action.leaves machine = after := by
  unfold answer? leaves
  cases action machine <;> simp

end Exec

namespace Machine

open Exec

def after (machine : Machine size) : Nat → Machine size
  | 0 => machine
  | steps + 1 => step.leaves (machine.after steps)

def Runs (machine : Machine size) (steps : Nat) : Prop :=
  ∀ k < steps, ∃ status, step (machine.after k) = .ok status (machine.after (k + 1))

variable {machine following : Machine size} {status : Status} {count : Nat}

theorem after_one (h : step machine = .ok status following) : machine.after 1 = following := by
  simp only [after, leaves, h]

theorem after_add (machine : Machine size) (first second : Nat) :
    machine.after (first + second) = (machine.after first).after second := by
  induction second with
  | zero => rfl
  | succ second ih => exact congrArg step.leaves ih

theorem after_after_one (machine : Machine size) (k : Nat) :
    (machine.after 1).after k = machine.after (k + 1) := by
  rw [← after_add, Nat.add_comm]

theorem after_succ (h : step machine = .ok status following) :
    machine.after (count + 1) = following.after count := by
  rw [← after_after_one, after_one h]

namespace Runs

theorem zero (machine : Machine size) : machine.Runs 0 :=
  fun _ impossible => absurd impossible (Nat.not_lt_zero _)

theorem next (first : step machine = .ok status following) (rest : following.Runs count) :
    machine.Runs (count + 1) := by
  intro k within
  cases k with
  | zero => exact ⟨status, (after_one first).symm ▸ first⟩
  | succ k =>
    rw [after_succ first, after_succ first]
    exact rest k (Nat.lt_of_succ_lt_succ within)

theorem snoc (runs : machine.Runs count)
    (last : step (machine.after count) = .ok status (machine.after (count + 1))) :
    machine.Runs (count + 1) := by
  intro k within
  rcases Nat.lt_succ_iff_lt_or_eq.mp within with earlier | rfl
  · exact runs k earlier
  · exact ⟨status, last⟩

theorem steps (runs : machine.Runs count) {k : Nat} (within : k < count) :
    (machine.after k).configuration.Steps (machine.after (k + 1)).configuration := by
  obtain ⟨status, succeeded⟩ := runs k within
  exact (steps_of_step succeeded).1

theorem first (runs : machine.Runs (count + 1)) :
    machine.configuration.Steps (machine.after 1).configuration :=
  runs.steps (Nat.succ_pos count)

theorem rest (runs : machine.Runs (count + 1)) : (machine.after 1).Runs count := by
  intro k within
  rw [after_after_one, after_after_one]
  exact runs (k + 1) (Nat.succ_lt_succ within)

end Runs

/-- A run is a trail without a fault, which can be decided. -/
theorem runs_iff :
    machine.Runs count ↔ ∀ k < count, (machine.after k).configuration.fault? = none := by
  constructor
  · intro runs k within
    exact (runs.steps within).faultless
  · intro faultless k within
    obtain ⟨fault, _, meets, _, _⟩ | ⟨final, succeeded, _⟩ := step_outcome (machine.after k)
    · cases (faultless k within).symm.trans meets
    · have same : machine.after (k + 1) = final := after_one succeeded
      exact ⟨_, same ▸ succeeded⟩

instance (machine : Machine size) (count : Nat) : Decidable (machine.Runs count) :=
  decidable_of_iff' _ runs_iff

end Machine

end ByteMachine
