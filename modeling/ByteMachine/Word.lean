/-!
The two word sizes of the machine, on both of which arithmetic wraps around, and how numbers are
printed: in a fixed base with a least number of digits. The machine's messages use capital
hexadecimal for its state, small hexadecimal for memory addresses and binary for opcodes.
-/

namespace ByteMachine

/-- The content of a memory cell or of a register. -/
abbrev Byte := UInt8

/-- The content of the program counter. -/
abbrev Address := UInt16

/-- The number of addresses. A cell of a larger memory that lies behind them cannot be fetched. -/
def addressCount : Nat := 0x10000

namespace Text

/-- The digits of `n`, filled up with zeros on the left; a number that needs more than `width`
digits keeps all of them. -/
def numeral (base width n : Nat) : List Char :=
  (Nat.toDigits base n).leftpad width '0'

def binary (width n : Nat) : String :=
  String.ofList (numeral 2 width n)

def lowerHex (n : Nat) : String :=
  String.ofList (numeral 16 1 n)

def upperHex (width n : Nat) : String :=
  String.ofList ((numeral 16 width n).map Char.toUpper)

end Text

end ByteMachine
