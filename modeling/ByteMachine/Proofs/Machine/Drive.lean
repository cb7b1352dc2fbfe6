import ByteMachine.Proofs.Machine.Trail

/-! The two ways of driving a machine as iterated steps. A turn that goes on or faults has taken
exactly one step, so a run that ends has a trail of successful steps behind it. -/
namespace ByteMachine

variable {size : Nat}

/-- The record that a run logs when it has counted the instructions. -/
def announcement (count : Nat) : Record :=
  ⟨.info, .processor, "Program halted after " ++ toString count ++ " instructions"⟩

def Machine.announce (machine : Machine size) (count : Nat) : Machine size :=
  { machine with journal := machine.journal.push (.logged (announcement count)) }

theorem Machine.configuration_announce (machine : Machine size) (count : Nat) :
    (machine.announce count).configuration = machine.configuration :=
  Exec.configuration_log machine (announcement count)

namespace Exec

variable {machine after : Machine size} {fault : Fault} {pace : Pace}
variable {limit count total : Nat}

theorem finish_announces (count : Nat) (machine : Machine size) :
    finish count machine = .ok (some count) (machine.announce count) := rfl

theorem turn_free (count : Nat) (machine : Machine size) :
    turn count .free machine =
      if machine.isHalted then finish count machine
      else match step machine with
        | .ok _ after => .ok none after
        | .error fault after => .error fault after := by
  simp only [turn, processor, bind_apply, ite_apply, pure_apply, Machine.isHalted]
  cases step machine <;> rfl

theorem turn_clocked (count period : Nat) (machine : Machine size) :
    turn count (.clocked period) machine =
      match step machine with
      | .ok .running after => .ok none after
      | .ok .halted after => finish (count + 1) after
      | .error fault after => .error fault after := by
  simp only [turn, bind_apply]
  cases step machine with
  | ok status after => cases status <;> rfl
  | error fault after => rfl

theorem turn_error (h : turn count pace machine = .error fault after) :
    step machine = .error fault after := by
  cases pace with
  | free =>
    rw [turn_free] at h
    split at h
    · contradiction
    · split at h
      · contradiction
      · cases h
        assumption
  | clocked period =>
    rw [turn_clocked] at h
    split at h
    · contradiction
    · contradiction
    · cases h
      assumption

theorem turn_goes_on (h : turn count pace machine = .ok none after) :
    ∃ status, step machine = .ok status after := by
  cases pace with
  | free =>
    rw [turn_free] at h
    split at h
    · cases h
    · split at h
      · cases h
        exact ⟨_, ‹_›⟩
      · contradiction
  | clocked period =>
    rw [turn_clocked] at h
    split at h
    · cases h
      exact ⟨_, ‹_›⟩
    · cases h
    · contradiction

theorem drive_succ (pace : Pace) (limit count : Nat) (machine : Machine size) :
    drive pace (limit + 1) count machine =
      match turn count pace machine with
      | .ok (some total) after => .ok (some total) after
      | .ok none after => drive pace limit (count + 1) after
      | .error fault after => .error fault after := by
  simp only [drive, bind_apply]
  cases turn count pace machine with
  | ok answer after => cases answer <;> rfl
  | error fault after => rfl

/-- A run that faults has taken its steps one by one up to the one that faults. -/
theorem drive_error (h : drive pace limit count machine = .error fault after) :
    ∃ steps, machine.Runs steps ∧ step (machine.after steps) = .error fault after := by
  induction limit generalizing machine count with
  | zero => contradiction
  | succ limit ih =>
    rw [drive_succ] at h
    split at h
    · contradiction
    · rename_i following goes
      obtain ⟨status, first⟩ := turn_goes_on goes
      obtain ⟨steps, runs, last⟩ := ih h
      exact ⟨steps + 1, .next first runs, Machine.after_succ first ▸ last⟩
    · rename_i faulted
      cases h
      exact ⟨0, .zero machine, turn_error faulted⟩

theorem turn_answers (answered : turn count pace machine = .ok (some total) after) :
    ∃ steps, after.configuration = (machine.after steps).configuration := by
  cases pace with
  | free =>
    rw [turn_free] at answered
    split at answered
    · cases answered
      exact ⟨0, machine.configuration_announce count⟩
    · split at answered <;> cases answered
  | clocked period =>
    rw [turn_clocked] at answered
    split at answered
    · cases answered
    · rename_i following succeeded
      cases answered
      refine ⟨1, (following.configuration_announce (count + 1)).trans ?_⟩
      rw [Machine.after_one succeeded]
    · cases answered

/-- However a run is driven and wherever its limit cuts it off, it has only taken steps. -/
theorem drive_leaves (pace : Pace) (limit count : Nat) (machine : Machine size) :
    ∃ steps, ((drive pace limit count).leaves machine).configuration =
      (machine.after steps).configuration := by
  induction limit generalizing count machine with
  | zero => exact ⟨0, rfl⟩
  | succ limit ih =>
    rw [leaves, drive_succ]
    cases ended : turn count pace machine with
    | error fault after =>
      refine ⟨1, congrArg Machine.configuration ?_⟩
      simp only [Machine.after, leaves, turn_error ended]
    | ok answer after =>
      cases answer with
      | some total => exact turn_answers ended
      | none =>
        obtain ⟨status, succeeded⟩ := turn_goes_on ended
        obtain ⟨steps, left⟩ := ih (count + 1) after
        refine ⟨steps + 1, ?_⟩
        rw [Machine.after_succ succeeded, ← left, leaves]

end Exec

end ByteMachine
