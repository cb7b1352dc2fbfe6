/-!
Unsigned numbers in text. A numeral is one or more digits after at most one plus sign; its value
must not pass a bound that the reader gives. A number token is a numeral whose radix shows in how it
is written: eight binary digits, a radix mark, or else decimal.
-/

namespace ByteMachine

inductive NumberError where
  | empty
  | invalidDigit
  | tooLarge
  deriving DecidableEq, Repr

namespace NumberError

def message : NumberError → String
  | empty => "cannot parse integer from empty string"
  | invalidDigit => "invalid digit found in string"
  | tooLarge => "number too large to fit in target type"

end NumberError

namespace Number

/-- The value of a digit of any base. Letters of either case continue the decimal digits. -/
def digitValue? (c : Char) : Option Nat :=
  if '0' ≤ c ∧ c ≤ '9' then some (c.toNat - '0'.toNat)
  else if 'a' ≤ c ∧ c ≤ 'z' then some (c.toNat - 'a'.toNat + 10)
  else if 'A' ≤ c ∧ c ≤ 'Z' then some (c.toNat - 'A'.toNat + 10)
  else none

/-- The value of a digit below `base`. -/
def digit? (base : Nat) (c : Char) : Option Nat :=
  (digitValue? c).filter (· < base)

/-- Reads digits after a part of value `value`, and stops at the first character that is no digit
or takes the value past `bound`. -/
def readDigits (base bound value : Nat) : List Char → Except NumberError Nat
  | [] => .ok value
  | c :: rest =>
    match digit? base c with
    | none => .error .invalidDigit
    | some digit =>
      if value * base + digit ≤ bound then readDigits base bound (value * base + digit) rest
      else .error .tooLarge

/-- Reads a numeral. A plus sign counts as one only before something else. -/
def readNumeral (base bound : Nat) : List Char → Except NumberError Nat
  | [] => .error .empty
  | '+' :: c :: rest => readDigits base bound 0 (c :: rest)
  | text => readDigits base bound 0 text

end Number

inductive Radix where
  | binary
  | octal
  | decimal
  | hexadecimal
  deriving DecidableEq, Repr

namespace Radix

def base : Radix → Nat
  | binary => 2
  | octal => 8
  | decimal => 10
  | hexadecimal => 16

/-- Splits the radix mark off a token. The marks are small letters only. -/
def split : List Char → Radix × List Char
  | '0' :: 'b' :: rest => (binary, rest)
  | '0' :: 'o' :: rest => (octal, rest)
  | '0' :: 'x' :: rest => (hexadecimal, rest)
  | text => (decimal, text)

end Radix

namespace Number

/-- A byte spelled bit by bit. Such a token is binary although it has no mark. -/
def isBitPattern (token : List Char) : Bool :=
  token.length == 8 && token.all fun c => c == '0' || c == '1'

/-- Reads a number token. What goes wrong is told by the radix that the token asked for. -/
def read (bound : Nat) (token : List Char) : Except Radix Nat :=
  if isBitPattern token then (readNumeral 2 bound token).mapError fun _ => .binary
  else
    let (radix, text) := Radix.split token
    (readNumeral radix.base bound text).mapError fun _ => radix

end Number

end ByteMachine
