import ByteMachine.Proofs.Machine.Ending

/-! The instruction count that a run answers and announces, against the steps that it takes on a
machine that is still running. The count is right from every machine but one that is halted already
and driven by the clock: the step that finds it at rest is counted as an instruction. -/
namespace ByteMachine.Exec

variable {size : Nat} {machine after : Machine size} {pace : Pace} {limit count total : Nat}

/-- The machines on which a run takes a step, in order. A free run that finds the machine halted
ends in that turn without a step. -/
def stepped (pace : Pace) (limit count : Nat) (machine : Machine size) : List (Machine size) :=
  match limit with
  | 0 => []
  | limit + 1 =>
    if pace = .free ∧ machine.isHalted = true then []
    else machine :: match turn count pace machine with
      | .ok none after => stepped pace limit (count + 1) after
      | _ => []

/-- The number of instructions that a run executes: its steps that find the machine running. -/
def executed (pace : Pace) (limit : Nat) (machine : Machine size) : Nat :=
  (stepped pace limit 0 machine).countP fun before => !before.isHalted

/-- A clocked run takes its first step before it looks at the processor. -/
def surplus (pace : Pace) (machine : Machine size) : Nat :=
  if pace ≠ .free ∧ machine.isHalted = true then 1 else 0

/-- The steps of a run are taken one on the machine that the other has left. -/
theorem stepped_eq_trail (pace : Pace) (limit count : Nat) (machine : Machine size) :
    ∃ steps, stepped pace limit count machine = (List.range steps).map machine.after := by
  induction limit generalizing count machine with
  | zero => exact ⟨0, rfl⟩
  | succ limit ih =>
    rw [stepped]
    split
    · exact ⟨0, rfl⟩
    · split
      · rename_i following goes
        obtain ⟨status, succeeded⟩ := turn_goes_on goes
        obtain ⟨steps, rest⟩ := ih (count + 1) following
        refine ⟨steps + 1, ?_⟩
        rw [rest, List.range_succ_eq_map, List.map_cons, List.map_map]
        refine congrArg (machine :: ·) (List.map_congr_left fun k _ => ?_)
        exact (Machine.after_succ succeeded).symm
      · exact ⟨1, rfl⟩

theorem running_of_step (succeeded : step machine = .ok .running after) :
    machine.isHalted = false := by
  cases halted : machine.isHalted with
  | false => rfl
  | true => cases succeeded.symm.trans (step_of_halted halted)

theorem infoRecords_of_step {status : Status} (succeeded : step machine = .ok status after) :
    after.infoRecords = machine.infoRecords := by
  rw [← Machine.after_one succeeded, machine.after_infoRecords]

/-- A turn after which the run goes on has executed an instruction, and no surplus can come any
more. -/
theorem stepped_of_going (limit : Nat) (goes : turn count pace machine = .ok none after) :
    stepped pace (limit + 1) count machine = machine :: stepped pace limit (count + 1) after ∧
      machine.isHalted = false ∧ surplus pace after = 0 := by
  have running : machine.isHalted = false ∧ surplus pace after = 0 := by
    cases pace with
    | free =>
      refine ⟨?_, if_neg fun h => h.1 rfl⟩
      cases halted : machine.isHalted with
      | false => rfl
      | true =>
        rw [turn_free, if_pos halted, finish_announces] at goes
        cases goes
    | clocked period =>
      rw [turn_clocked] at goes
      split at goes
      · rename_i following succeeded
        cases goes
        have rests := isHalted_of_step succeeded
        exact ⟨running_of_step succeeded, if_neg fun h => Bool.false_ne_true (rests.symm.trans h.2)⟩
      · cases goes
      · contradiction
  refine ⟨?_, running⟩
  rw [stepped, if_neg fun h => Bool.false_ne_true (running.1.symm.trans h.2), goes]

/-- The turn in which a run ends counts the step that it takes, if it takes one. -/
theorem stepped_of_ending (answered : turn count pace machine = .ok (some total) after) :
    total = count + (stepped pace (limit + 1) count machine).countP (fun before => !before.isHalted)
        + surplus pace machine ∧
      after.infoRecords = machine.infoRecords ++ [announcement total] := by
  cases pace with
  | free =>
    rw [turn_free] at answered
    split at answered
    · rename_i halted
      cases answered
      refine ⟨?_, machine.infoRecords_announce count⟩
      rw [stepped, if_pos ⟨rfl, halted⟩, surplus, if_neg fun h => h.1 rfl]
      rfl
    · split at answered
      · cases answered
      · contradiction
  | clocked period =>
    have once : stepped (.clocked period) (limit + 1) count machine = [machine] := by
      simp only [stepped, if_neg (fun h => nomatch h.1 : ¬ (Pace.clocked period = .free ∧ _)),
        answered]
    rw [turn_clocked] at answered
    split at answered
    · cases answered
    · rename_i following succeeded
      cases answered
      constructor
      · rw [once, surplus, List.countP_singleton]
        cases machine.isHalted <;> rfl
      · rw [← infoRecords_of_step succeeded]
        exact following.infoRecords_announce (count + 1)
    · contradiction

theorem count_of_drive (answered : drive pace limit count machine = .ok (some total) after) :
    total = count + (stepped pace limit count machine).countP (fun before => !before.isHalted)
        + surplus pace machine ∧
      after.infoRecords = machine.infoRecords ++ [announcement total] := by
  induction limit generalizing machine count with
  | zero => cases answered
  | succ limit ih =>
    rw [drive_succ] at answered
    split at answered
    · rename_i ended
      cases answered
      exact stepped_of_ending ended
    · rename_i following goes
      obtain ⟨first, running, settled⟩ := stepped_of_going limit goes
      obtain ⟨counted, announced⟩ := ih answered
      have silent : following.infoRecords = machine.infoRecords := by
        obtain ⟨status, succeeded⟩ := turn_goes_on goes
        exact infoRecords_of_step succeeded
      have idle : surplus pace machine = 0 :=
        if_neg fun h => Bool.false_ne_true (running.symm.trans h.2)
      refine ⟨?_, silent ▸ announced⟩
      rw [counted, first, List.countP_cons, running, settled, idle]
      simp only [Bool.not_false, if_true]
      omega
    · contradiction

/-- The count of a run is the number of instructions that it has executed, and the number that it
announces, except that a clocked run of a machine that is halted already counts one instruction and
executes none. -/
theorem count_is_executed_up_to_surplus
    (answered : drive pace limit 0 machine = .ok (some total) after) :
    (∃ steps, stepped pace limit 0 machine = (List.range steps).map machine.after) ∧
    total = executed pace limit machine + surplus pace machine ∧
    after.infoRecords = machine.infoRecords ++ [announcement total] := by
  obtain ⟨counted, announced⟩ := count_of_drive answered
  refine ⟨stepped_eq_trail pace limit 0 machine, ?_, announced⟩
  rwa [Nat.zero_add] at counted

/-- The second of two runs on one processor, which the first has halted. -/
theorem count_of_clocked_run_after_halt :
    let machine : Machine 1 := .start (Memory.zeros.overwrite 0 #[1])
    let halted := machine.after 1
    ∃ after, drive (.clocked 5) 1 0 halted = .ok (some 1) after ∧
      1 = executed (.clocked 5) 1 halted + surplus (.clocked 5) halted := by
  intro machine halted
  have answered : (drive (.clocked 5) 1 0).answer? halted = some (some 1) := by decide +kernel
  have ended := apply_eq_ok.mpr ⟨answered, rfl⟩
  exact ⟨_, ended, (count_is_executed_up_to_surplus ended).2.1⟩

/-- A clocked run of a halted machine announces an instruction although its one step finds nothing
to execute. A free run of the same machine announces none. -/
theorem clocked_run_of_halted_machine_counts_one :
    let machine : Machine 1 := .start (Memory.zeros.overwrite 0 #[1])
    let halted := machine.after 1
    (∃ after, drive (.clocked 5) 1 0 halted = .ok (some 1) after ∧
      after.infoRecords = [announcement 1]) ∧
    executed (.clocked 5) 1 halted = 0 ∧
    ∃ after, drive .free 1 0 halted = .ok (some 0) after := by
  intro machine halted
  refine ⟨⟨_, rfl, ?_⟩, ?_, ⟨_, rfl⟩⟩
  · decide +kernel
  · decide +kernel

end ByteMachine.Exec
