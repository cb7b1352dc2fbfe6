import ByteMachine.Word

/-!
What a run leaves behind in the order in which it happened: values that the program printed and log
records. Whether a record is shown is decided when the journal is read, not when it is written.
-/

namespace ByteMachine

inductive Level where
  | error
  | warn
  | info
  | debug
  | trace
  deriving DecidableEq, Repr

namespace Level

def name : Level → String
  | error => "ERROR"
  | warn => "WARN"
  | info => "INFO"
  | debug => "DEBUG"
  | trace => "TRACE"

/-- How much is shown at a level: each level shows its own records and those of smaller rank. -/
def rank : Level → Nat
  | error => 1
  | warn => 2
  | info => 3
  | debug => 4
  | trace => 5

end Level

/-- The part of the program that wrote a record. -/
inductive Origin where
  | host
  | processor
  | memory
  | loader
  deriving DecidableEq, Repr

namespace Origin

def path : Origin → String
  | host => "ls8"
  | processor => "ls8::processor"
  | memory => "ls8::memory"
  | loader => "ls8::memory::parse"

end Origin

structure Record where
  level : Level
  origin : Origin
  text : String
  deriving DecidableEq, Repr

namespace Record

def shownAt (level : Level) (record : Record) : Bool :=
  record.level.rank ≤ level.rank

end Record

inductive Event where
  | printed (value : Byte)
  | logged (record : Record)
  deriving DecidableEq, Repr

namespace Event

def value? : Event → Option Byte
  | printed value => some value
  | logged _ => none

def record? : Event → Option Record
  | printed _ => none
  | logged record => some record

/-- Printed values are part of the result and always shown. -/
def shownAt (level : Level) : Event → Bool
  | printed _ => true
  | logged record => record.shownAt level

end Event

end ByteMachine
