import ByteMachine.Flags
import ByteMachine.Register

/-!
The state of the processor and the one-line summary that log records and reports show of it.
-/

namespace ByteMachine

inductive Status where
  | running
  | halted
  deriving DecidableEq, Repr

structure Processor where
  registers : RegisterFile
  pc : Address
  flags : Flags
  status : Status
  deriving DecidableEq

namespace Processor

open Text

def initial : Processor :=
  { registers := .initial, pc := 0, flags := .clear, status := .running }

def isHalted (processor : Processor) : Bool :=
  processor.status == .halted

def trace (processor : Processor) : String :=
  "PC:" ++ upperHex 2 processor.pc.toNat ++ " FL:" ++ processor.flags.text ++ " R:[" ++
    ", ".intercalate (processor.registers.toList.map fun b => upperHex 2 b.toNat) ++ "]"

end Processor

end ByteMachine
