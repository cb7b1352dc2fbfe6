import ByteMachine.Proofs.Machine.Ending

/-! Machines that differ in their journals alone. What a step does is told by the configuration, so
two such machines stay alike step by step: they halt after the same number of steps, fault at the
same one with the same fault, or both run for ever. -/
namespace ByteMachine

variable {size : Nat}

namespace Exec

variable {machine other : Machine size}

theorem leaves_alike (alike : machine.configuration = other.configuration) :
    (step.leaves machine).configuration = (step.leaves other).configuration := by
  obtain ⟨fault, after, meets, faulted, kept⟩ | ⟨after, succeeded, steps⟩ := step_outcome machine
  · rw [alike] at meets
    obtain ⟨after', faulted', kept'⟩ := step_of_fault meets
    simp only [leaves, faulted, faulted']
    rw [kept, kept', alike]
  · have same := steps
    rw [alike] at same
    obtain ⟨after', succeeded', left⟩ := step_of_steps same
    simp only [leaves, succeeded, succeeded']
    exact left.symm

end Exec

namespace Machine

open Exec

variable {machine other : Machine size} {count : Nat}

theorem after_alike (alike : machine.configuration = other.configuration) (count : Nat) :
    (machine.after count).configuration = (other.after count).configuration := by
  induction count with
  | zero => exact alike
  | succ count ih => exact leaves_alike ih

theorem isHalted_alike (alike : machine.configuration = other.configuration) (count : Nat) :
    (machine.after count).isHalted = (other.after count).isHalted :=
  congrArg Configuration.isHalted (after_alike alike count)

theorem Runs.alike (runs : machine.Runs count)
    (alike : machine.configuration = other.configuration) : other.Runs count := by
  rw [runs_iff] at runs ⊢
  intro k within
  rw [← after_alike alike k]
  exact runs k within

theorem HaltsAfter.alike (halts : machine.HaltsAfter count)
    (alike : machine.configuration = other.configuration) : other.HaltsAfter count where
  runs := halts.runs.alike alike
  halted := (isHalted_alike alike count).symm.trans halts.halted
  first k within := (isHalted_alike alike k).symm.trans (halts.first k within)

theorem StaysRunning.alike (stays : machine.StaysRunning count)
    (alike : machine.configuration = other.configuration) : other.StaysRunning count where
  runs := stays.runs.alike alike
  running k within := (isHalted_alike alike k).symm.trans (stays.running k within)

theorem fault_alike {fault : Fault} {stopped : Machine size}
    (faulted : step (machine.after count) = .error fault stopped)
    (alike : machine.configuration = other.configuration) :
    ∃ stopped', step (other.after count) = .error fault stopped' ∧
      stopped'.configuration = stopped.configuration := by
  obtain ⟨meets, kept⟩ := fault_of_step faulted
  rw [after_alike alike count] at meets kept
  obtain ⟨stopped', faulted', kept'⟩ := step_of_fault meets
  exact ⟨stopped', faulted', kept'.trans kept.symm⟩

/-- A run that halts meets no fault on its way. -/
theorem HaltsAfter.faultless {halting faulting : Nat} (halts : machine.HaltsAfter halting)
    (stays : machine.StaysRunning faulting) {fault : Fault} {stopped : Machine size} :
    step (machine.after faulting) ≠ .error fault stopped := by
  intro faulted
  have before : faulting < halting := by
    apply Nat.lt_of_not_le
    intro later
    cases (stays.running halting later).symm.trans halts.halted
  obtain ⟨status, succeeded⟩ := halts.runs faulting before
  cases succeeded.symm.trans faulted

end Machine

end ByteMachine
