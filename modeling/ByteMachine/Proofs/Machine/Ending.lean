import ByteMachine.Proofs.Machine.Drive
import ByteMachine.Proofs.Machine.Journal

/-! How a run ends. The two drivers look at the processor at different points of a turn, but from a
running machine both halt with the same count, fault with the same fault or go on for ever, each of
it told by the steps of the machine alone. A limit that is large enough stands for a run that ends,
and a run that ends at no limit is one that never does. -/
namespace ByteMachine

variable {size : Nat}

namespace Machine

theorem infoRecords_announce (machine : Machine size) (count : Nat) :
    (machine.announce count).infoRecords = machine.infoRecords ++ [announcement count] := by
  simp only [infoRecords, records, announce, Array.toList_push, List.filterMap_append,
    List.filter_append]
  rfl

/-- The given number of steps succeed, and it is the least one that leaves the machine halted. -/
structure HaltsAfter (machine : Machine size) (count : Nat) : Prop where
  runs : machine.Runs count
  halted : (machine.after count).isHalted = true
  first : ∀ k < count, (machine.after k).isHalted = false

/-- The given number of steps succeed and leave the machine running. -/
structure StaysRunning (machine : Machine size) (count : Nat) : Prop where
  runs : machine.Runs count
  running : ∀ k ≤ count, (machine.after k).isHalted = false

end Machine

namespace Exec

/-- The run comes to an end with a count, given turns enough. -/
def Answers (pace : Pace) (machine : Machine size) (total : Nat) (after : Machine size) : Prop :=
  ∃ limit, drive pace limit 0 machine = .ok (some total) after

/-- The run comes to an end with a fault, given turns enough. -/
def Fails (pace : Pace) (machine : Machine size) (fault : Fault) (after : Machine size) : Prop :=
  ∃ limit, drive pace limit 0 machine = .error fault after

/-- The run comes to no end with any number of turns. -/
def NeverEnds (pace : Pace) (machine : Machine size) : Prop :=
  ∀ limit, ∃ after, drive pace limit 0 machine = .ok none after

variable {machine after : Machine size} {fault : Fault} {pace : Pace}
variable {limit count total : Nat}

theorem isHalted_of_step {status : Status} (succeeded : step machine = .ok status after) :
    after.isHalted = (status == .halted) := by
  obtain ⟨_, rfl⟩ := steps_of_step succeeded
  rfl

end Exec

namespace Machine

open Exec

variable {machine : Machine size} {count : Nat}

namespace StaysRunning

theorem zero (running : machine.isHalted = false) : machine.StaysRunning 0 := by
  refine ⟨.zero machine, ?_⟩
  intro k within
  rw [Nat.le_zero.mp within]
  exact running

theorem mono (stays : machine.StaysRunning count) {fewer : Nat} (le : fewer ≤ count) :
    machine.StaysRunning fewer where
  runs k within := stays.runs k (Nat.lt_of_lt_of_le within le)
  running k within := stays.running k (Nat.le_trans within le)

theorem step (stays : machine.StaysRunning (count + 1)) :
    step (machine.after count) = .ok .running (machine.after (count + 1)) := by
  obtain ⟨status, succeeded⟩ := stays.runs count (Nat.lt_succ_self count)
  have running := isHalted_of_step succeeded
  rw [stays.running (count + 1) (Nat.le_refl _)] at running
  cases status with
  | running => exact succeeded
  | halted => contradiction

theorem snoc (stays : machine.StaysRunning count)
    (last : Exec.step (machine.after count) = .ok .running (machine.after (count + 1))) :
    machine.StaysRunning (count + 1) := by
  refine ⟨stays.runs.snoc last, ?_⟩
  intro k within
  rcases Nat.le_succ_iff.mp within with earlier | rfl
  · exact stays.running k earlier
  · exact isHalted_of_step last

end StaysRunning

/-- Before the step that halts it a machine stays running. -/
theorem HaltsAfter.last (halts : machine.HaltsAfter count) (running : machine.isHalted = false) :
    ∃ before, count = before + 1 ∧ machine.StaysRunning before ∧
      Exec.step (machine.after before) = .ok .halted (machine.after (before + 1)) := by
  cases count with
  | zero => cases running.symm.trans halts.halted
  | succ before =>
    obtain ⟨status, succeeded⟩ := halts.runs before (Nat.lt_succ_self before)
    have halted := isHalted_of_step succeeded
    rw [halts.halted] at halted
    refine ⟨before, rfl, ⟨fun k within => halts.runs k (Nat.lt_succ_of_lt within),
      fun k within => halts.first k (Nat.lt_succ_of_le within)⟩, ?_⟩
    cases status with
    | running => contradiction
    | halted => exact succeeded

theorem StaysRunning.haltsAfter (stays : machine.StaysRunning count)
    (last : Exec.step (machine.after count) = .ok .halted (machine.after (count + 1))) :
    machine.HaltsAfter (count + 1) where
  runs := stays.runs.snoc last
  halted := isHalted_of_step last
  first k within := stays.running k (Nat.le_of_lt_succ within)

/-- A machine halts, faults or stays running for ever. -/
theorem ends_or_stays (running : machine.isHalted = false) :
    (∃ count, machine.HaltsAfter count) ∨
    (∃ count fault stopped, machine.StaysRunning count ∧
      Exec.step (machine.after count) = .error fault stopped) ∨
    ∀ count, machine.StaysRunning count := by
  by_cases halts : ∃ count, machine.HaltsAfter count
  · exact .inl halts
  · by_cases faults : ∃ count fault stopped, machine.StaysRunning count ∧
        Exec.step (machine.after count) = .error fault stopped
    · exact .inr (.inl faults)
    · refine .inr (.inr fun count => ?_)
      induction count with
      | zero => exact .zero running
      | succ count ih =>
        cases ended : Exec.step (machine.after count) with
        | error fault stopped => exact absurd ⟨count, fault, stopped, ih, ended⟩ faults
        | ok status next =>
          have last : Exec.step (machine.after count) = .ok status (machine.after (count + 1)) :=
            ended.trans (congrArg _ (after_one ended).symm)
          cases status with
          | running => exact ih.snoc last
          | halted => exact absurd ⟨count + 1, ih.haltsAfter last⟩ halts

end Machine

namespace Exec

variable {machine after : Machine size} {fault : Fault} {pace : Pace}
variable {limit count total : Nat}

/-- A step that leaves the machine running is one turn of either driver. -/
theorem turn_of_running (running : machine.isHalted = false)
    (succeeded : step machine = .ok .running after) : turn count pace machine = .ok none after := by
  cases pace with
  | free => rw [turn_free, running, if_neg Bool.false_ne_true, succeeded]
  | clocked period => rw [turn_clocked, succeeded]

theorem turn_of_fault (running : machine.isHalted = false)
    (faulted : step machine = .error fault after) :
    turn count pace machine = .error fault after := by
  cases pace with
  | free => rw [turn_free, running, if_neg Bool.false_ne_true, faulted]
  | clocked period => rw [turn_clocked, faulted]

/-- The step that halts the machine ends a clocked run in the same turn and a free one in the
next; both have counted it. -/
theorem drive_of_halting (running : machine.isHalted = false)
    (succeeded : step machine = .ok .halted after) :
    drive pace 2 count machine = .ok (some (count + 1)) (after.announce (count + 1)) := by
  have halted : after.isHalted = true := isHalted_of_step succeeded
  cases pace with
  | free =>
    rw [drive_succ, turn_free, running, if_neg Bool.false_ne_true, succeeded]
    simp only [drive_succ, turn_free, halted, if_true, finish_announces]
  | clocked period =>
    rw [drive_succ, turn_clocked, succeeded]
    rfl

/-- Turns that a run takes without coming to an end can be left out. -/
theorem drive_skip (steps : Nat) (stays : machine.StaysRunning steps) :
    drive pace (limit + steps) count machine =
      drive pace limit (count + steps) (machine.after steps) := by
  induction steps generalizing limit with
  | zero => rfl
  | succ steps ih =>
    have before := stays.mono (Nat.le_succ steps)
    rw [Nat.add_comm steps, ← Nat.add_assoc, ih before, drive_succ,
      turn_of_running (before.running steps (Nat.le_refl _)) stays.step, Nat.add_comm 1]
    rfl

/-- An answer at one limit is the answer at every larger one. -/
theorem drive_stable {result : EStateM.Result Fault (Machine size) (Option Nat)}
    (ended : drive pace limit count machine = result) (final : ∀ after, result ≠ .ok none after)
    (extra : Nat) : drive pace (limit + extra) count machine = result := by
  induction limit generalizing machine count with
  | zero => exact absurd ended.symm (final machine)
  | succ limit ih =>
    rw [Nat.succ_add, drive_succ]
    rw [drive_succ] at ended
    split at ended
    · exact ended
    · exact ih ended
    · exact ended

theorem drive_unique {left right : EStateM.Result Fault (Machine size) (Option Nat)}
    {first second : Nat}
    (hl : drive pace first count machine = left) (finalLeft : ∀ after, left ≠ .ok none after)
    (hr : drive pace second count machine = right) (finalRight : ∀ after, right ≠ .ok none after) :
    left = right := by
  have long := drive_stable hl finalLeft second
  rw [Nat.add_comm] at long
  exact long.symm.trans (drive_stable hr finalRight first)

theorem drive_of_halts (running : machine.isHalted = false) (halts : machine.HaltsAfter total) :
    drive pace (total + 1) 0 machine = .ok (some total) ((machine.after total).announce total) := by
  obtain ⟨before, rfl, stays, last⟩ := halts.last running
  rw [show before + 1 + 1 = 2 + before by omega, drive_skip before stays,
    drive_of_halting (stays.running before (Nat.le_refl _)) last, Nat.zero_add]

theorem drive_of_fault (stays : machine.StaysRunning count)
    (faulted : step (machine.after count) = .error fault after) :
    drive pace (1 + count) 0 machine = .error fault after := by
  rw [drive_skip count stays, drive_succ,
    turn_of_fault (stays.running count (Nat.le_refl _)) faulted]

theorem drive_of_stays (stays : machine.StaysRunning limit) :
    drive pace limit 0 machine = .ok none (machine.after limit) := by
  have skipped : drive pace (0 + limit) 0 machine = .ok none (machine.after limit) :=
    drive_skip limit stays
  rwa [Nat.zero_add] at skipped

section Running

variable (running : machine.isHalted = false)

include running

theorem answers_iff :
    Answers pace machine total after ↔
      machine.HaltsAfter total ∧ after = (machine.after total).announce total := by
  constructor
  · rintro ⟨limit, answered⟩
    obtain ⟨count, halts⟩ | ⟨count, fault, stopped, stays, faulted⟩ | stays :=
      Machine.ends_or_stays running
    · cases drive_unique answered nofun (drive_of_halts running halts) nofun
      exact ⟨halts, rfl⟩
    · cases drive_unique answered nofun (drive_of_fault stays faulted) nofun
    · cases answered.symm.trans (drive_of_stays (stays limit))
  · rintro ⟨halts, rfl⟩
    exact ⟨total + 1, drive_of_halts running halts⟩

theorem fails_iff :
    Fails pace machine fault after ↔
      ∃ steps, machine.StaysRunning steps ∧ step (machine.after steps) = .error fault after := by
  constructor
  · rintro ⟨limit, failed⟩
    obtain ⟨count, halts⟩ | ⟨count, fault, stopped, stays, faulted⟩ | stays :=
      Machine.ends_or_stays running
    · cases drive_unique failed nofun (drive_of_halts running halts) nofun
    · cases drive_unique failed nofun (drive_of_fault stays faulted) nofun
      exact ⟨count, stays, faulted⟩
    · cases failed.symm.trans (drive_of_stays (stays limit))
  · rintro ⟨steps, stays, faulted⟩
    exact ⟨1 + steps, drive_of_fault stays faulted⟩

theorem neverEnds_iff : NeverEnds pace machine ↔ ∀ steps, machine.StaysRunning steps := by
  constructor
  · intro goes
    obtain ⟨count, halts⟩ | ⟨count, fault, stopped, stays, faulted⟩ | stays :=
      Machine.ends_or_stays running
    · obtain ⟨after, unended⟩ := goes (count + 1)
      cases unended.symm.trans (drive_of_halts running halts)
    · obtain ⟨after, unended⟩ := goes (1 + count)
      cases unended.symm.trans (drive_of_fault stays faulted)
    · exact stays
  · intro stays limit
    exact ⟨machine.after limit, drive_of_stays (stays limit)⟩

end Running

/-- The fault of a run is that of one more step, which announces nothing either. -/
theorem infoRecords_of_fault {steps : Nat}
    (faulted : step (machine.after steps) = .error fault after) :
    after.infoRecords = machine.infoRecords := by
  have left : machine.after (steps + 1) = after := by
    simp only [Machine.after, leaves, faulted]
  rw [← left, machine.after_infoRecords]

/-- From a running machine both drivers are iterated steps. A run ends with a count exactly if that
is the least number of steps that halts the machine, with a fault exactly if that is the fault of
the step after some steps that leave it running, and not at all exactly if it stays running for
ever. So the drivers agree in everything, journal included; a run that ends with a count announces
it once, and one that faults announces nothing. -/
theorem drivers_iterate_steps (machine : Machine size) (running : machine.isHalted = false) :
    (∀ pace total after, Answers pace machine total after ↔
      machine.HaltsAfter total ∧ after = (machine.after total).announce total) ∧
    (∀ pace fault after, Fails pace machine fault after ↔
      ∃ steps, machine.StaysRunning steps ∧ step (machine.after steps) = .error fault after ∧
        after.configuration = (machine.after steps).configuration) ∧
    (∀ pace, NeverEnds pace machine ↔ ∀ steps, machine.StaysRunning steps) ∧
    (∀ period,
      (∀ total after, Answers .free machine total after ↔
        Answers (.clocked period) machine total after) ∧
      (∀ fault after, Fails .free machine fault after ↔
        Fails (.clocked period) machine fault after) ∧
      (NeverEnds .free machine ↔ NeverEnds (.clocked period) machine)) ∧
    ∀ pace,
      (∀ total after, Answers pace machine total after →
        after.infoRecords = machine.infoRecords ++ [announcement total]) ∧
      ∀ fault after, Fails pace machine fault after →
        after.infoRecords = machine.infoRecords := by
  refine ⟨fun _ _ _ => answers_iff running, ?_, fun _ => neverEnds_iff running, ?_, ?_⟩
  · intro pace fault after
    rw [fails_iff running]
    constructor
    · rintro ⟨steps, stays, faulted⟩
      exact ⟨steps, stays, faulted, (fault_of_step faulted).2⟩
    · rintro ⟨steps, stays, faulted, _⟩
      exact ⟨steps, stays, faulted⟩
  · intro period
    refine ⟨fun _ _ => ?_, fun _ _ => ?_, ?_⟩
    · rw [answers_iff running, answers_iff running]
    · rw [fails_iff running, fails_iff running]
    · rw [neverEnds_iff running, neverEnds_iff running]
  · intro pace
    constructor
    · intro total after answered
      obtain ⟨_, rfl⟩ := (answers_iff running).mp answered
      rw [Machine.infoRecords_announce, Machine.after_infoRecords]
    · intro fault after failed
      obtain ⟨steps, _, faulted⟩ := (fails_iff running).mp failed
      exact infoRecords_of_fault faulted

/-- A program that prints in its first step and halts in its second. -/
theorem drivers_agree_on_print_and_halt :
    let machine : Machine 3 := .start (Memory.zeros.overwrite 0 #[0x43, 0, 1])
    machine.isHalted = false ∧
      ∃ after, Answers .free machine 2 after ∧ Answers (.clocked 7) machine 2 after ∧
        after.infoRecords = [announcement 2] := by
  intro machine
  have running : machine.isHalted = false := rfl
  have halts : machine.HaltsAfter 2 :=
    ⟨by decide +kernel, by decide +kernel, by decide +kernel⟩
  obtain ⟨answers, _, _, agree, announces⟩ := drivers_iterate_steps machine running
  have answered := (answers .free 2 _).mpr ⟨halts, rfl⟩
  exact ⟨running, _, answered, ((agree 7).1 2 _).mp answered, (announces .free).1 2 _ answered⟩

end Exec

end ByteMachine
