import ByteMachine.Machine.Step

/-!
Runs of the processor until it halts. A run may go on for ever, so it is given a limit on the
number of turns it takes; without an answer at one limit it may still have one at a larger.
-/

namespace ByteMachine

/-- How fast instructions follow each other. -/
inductive Pace where
  | free
  /-- One instruction in each period. -/
  | clocked (microseconds : Nat)
  deriving DecidableEq, Repr

namespace Exec

variable {size : Nat}

/-- Ends a run with the number of instructions that it counted. -/
def finish (count : Nat) : Exec size (Option Nat) := do
  log .info ("Program halted after " ++ toString count ++ " instructions")
  return some count

/-- One turn of a run that has counted `count` instructions. A free run looks at the processor
before each step, a clocked one after it. The answer is the final count, or none while the run
goes on. -/
def turn (count : Nat) : Pace → Exec size (Option Nat)
  | .free => do
    if (← processor).isHalted then finish count
    else do
      let _ ← step
      return none
  | .clocked _ => do
    match ← step with
    | .running => return none
    | .halted => finish (count + 1)

/-- Takes turns until the run ends or the limit is used up, which gives no count. -/
def drive (pace : Pace) (limit count : Nat) : Exec size (Option Nat) :=
  match limit with
  | 0 => return none
  | limit + 1 => do
    match ← turn count pace with
    | some total => return some total
    | none => drive pace limit (count + 1)

end Exec

end ByteMachine
