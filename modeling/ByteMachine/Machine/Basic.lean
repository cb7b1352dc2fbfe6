import ByteMachine.Fault
import ByteMachine.Log
import ByteMachine.Memory.Basic
import ByteMachine.Processor

/-!
The machine: a processor with its memory and the journal of the run so far. Actions on it may
fault, and a fault leaves the machine as the action had made it by then. That an instruction checks
everything before its first change is therefore a fact about each instruction, not about the type.
-/

namespace ByteMachine

structure Machine (size : Nat) where
  processor : Processor
  memory : Memory size
  journal : Array Event
  deriving DecidableEq

/-- An action on the machine. -/
abbrev Exec (size : Nat) := EStateM Fault (Machine size)

namespace Machine

variable {size : Nat}

/-- A machine as it is switched on. -/
def start (memory : Memory size) : Machine size :=
  { processor := .initial, memory, journal := #[] }

def isHalted (machine : Machine size) : Bool :=
  machine.processor.isHalted

def logAll (machine : Machine size) (records : List Record) : Machine size :=
  { machine with journal := machine.journal ++ records.map Event.logged }

/-- The values printed so far. -/
def printed (machine : Machine size) : List Byte :=
  machine.journal.toList.filterMap Event.value?

/-- The records logged so far. -/
def records (machine : Machine size) : List Record :=
  machine.journal.toList.filterMap Event.record?

end Machine

namespace Exec

variable {size : Nat}

def processor : Exec size Processor := fun machine =>
  .ok machine.processor machine

def changeProcessor (change : Processor → Processor) : Exec size Unit := fun machine =>
  .ok () { machine with processor := change machine.processor }

def readRegister (register : Register) : Exec size Byte := fun machine =>
  .ok (machine.processor.registers.get register) machine

def setRegister (register : Register) (value : Byte) : Exec size Unit :=
  changeProcessor fun p => { p with registers := p.registers.set register value }

/-- Reads a byte of memory. -/
def load (address : Nat) : Exec size Byte := fun machine =>
  match machine.memory.read address with
  | .ok value => .ok value machine
  | .error fault => .error fault machine

/-- Writes a byte of memory. -/
def store (address : Nat) (value : Byte) : Exec size Unit := fun machine =>
  match Edit.write address value machine.memory with
  | .ok _ memory => .ok () { machine with memory }
  | .error fault memory => .error fault { machine with memory }

/-- Adds to the journal. -/
def note (event : Event) : Exec size Unit := fun machine =>
  .ok () { machine with journal := machine.journal.push event }

def emit (value : Byte) : Exec size Unit :=
  note (.printed value)

def log (level : Level) (text : String) : Exec size Unit :=
  note (.logged ⟨level, .processor, text⟩)

/-! How actions unfold on a given machine. -/

variable {α β : Type}

theorem bind_apply (action : Exec size α) (next : α → Exec size β) (machine : Machine size) :
    (action >>= next) machine =
      match action machine with
      | .ok value after => next value after
      | .error fault after => .error fault after := by
  change EStateM.bind action next machine = _
  unfold EStateM.bind
  split <;> simp_all

theorem bind_apply_eq_ok {action : Exec size α} {next : α → Exec size β}
    {machine after : Machine size} {value : β} :
    (action >>= next) machine = .ok value after ↔
      ∃ first between, action machine = .ok first between ∧
        next first between = .ok value after := by
  rw [bind_apply]
  constructor
  · intro ended
    split at ended
    · exact ⟨_, _, ‹_›, ended⟩
    · contradiction
  · rintro ⟨first, between, started, ended⟩
    rw [started]
    exact ended

theorem bind_apply_eq_error {action : Exec size α} {next : α → Exec size β}
    {machine after : Machine size} {fault : Fault} :
    (action >>= next) machine = .error fault after ↔ action machine = .error fault after ∨
      ∃ first between, action machine = .ok first between ∧
        next first between = .error fault after := by
  rw [bind_apply]
  constructor
  · intro ended
    split at ended
    · exact .inr ⟨_, _, ‹_›, ended⟩
    · cases ended
      exact .inl ‹_›
  · rintro (stopped | ⟨first, between, started, ended⟩)
    · rw [stopped]
    · rw [started]
      exact ended

theorem pure_apply (value : α) (machine : Machine size) :
    (pure value : Exec size α) machine = .ok value machine := rfl

theorem throw_apply (fault : Fault) (machine : Machine size) :
    (throw fault : Exec size α) machine = .error fault machine := rfl

theorem ite_apply (condition : Prop) [Decidable condition] (left right : Exec size α)
    (machine : Machine size) :
    (if condition then left else right) machine =
      if condition then left machine else right machine := by
  split <;> rfl

theorem load_apply (address : Nat) (machine : Machine size) :
    load address machine =
      match machine.memory.get? address with
      | some value => .ok value machine
      | none => .error (.addressOutOfRange address) machine := by
  unfold load Memory.read
  cases machine.memory.get? address <;> rfl

theorem store_apply (address : Nat) (value : Byte) (machine : Machine size) :
    store address value machine =
      if address < size then
        .ok () { machine with memory := machine.memory.set address value }
      else .error (.addressOutOfRange address) machine := by
  rw [store, Edit.write_apply]
  by_cases inside : address < size
  · simp only [if_pos inside]
  · simp only [if_neg inside]

end Exec

end ByteMachine
