import ByteMachine.Word

/-!
The flags register. A comparison leaves exactly one of three bits set, and the other five bits stay
clear for as long as nothing but comparisons writes the register.
-/

namespace ByteMachine

structure Flags where
  bits : Byte
  deriving DecidableEq, Repr

namespace Flags

def equal : Byte := 0b001

def greater : Byte := 0b010

def less : Byte := 0b100

def clear : Flags := ⟨0⟩

/-- Whether one of the bits of `mask` is set. -/
def contains (flags : Flags) (mask : Byte) : Bool :=
  flags.bits &&& mask != 0

/-- The flags after comparing two bytes as unsigned numbers. -/
def compare (a b : Byte) : Flags :=
  if a = b then ⟨equal⟩ else if a > b then ⟨greater⟩ else ⟨less⟩

/-- What a conditional jump waits for. -/
inductive Condition where
  | equal
  | different
  deriving DecidableEq, Repr

def meets (flags : Flags) : Condition → Bool
  | .equal => flags.contains equal
  | .different => !flags.contains equal

/-- One letter for each bit that is set and a dash for each that is not. -/
def text (flags : Flags) : String :=
  let letter (mask : Byte) (c : Char) : Char := if flags.contains mask then c else '-'
  String.ofList [letter less 'L', letter greater 'G', letter equal 'E']

end Flags

end ByteMachine
