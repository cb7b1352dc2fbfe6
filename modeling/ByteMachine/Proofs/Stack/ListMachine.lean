import ByteMachine.Proofs.Machine.Fetch

/-! A processor whose code cannot change and whose stack is a list. It has no memory to write to and
no stack pointer: an instruction that reads the stack pointer gets the address where the stack began
less the number of bytes on it, and one that would set it is not defined. -/
namespace ByteMachine

structure ListMachine where
  /-- R0 to R6. -/
  low : Vector Byte 7
  pc : Address
  flags : Flags
  status : Status
  /-- The top of the stack comes first. -/
  stack : List Byte
  printed : List Byte
  deriving DecidableEq

namespace ListMachine

/-- The processor and the output of a configuration, with nothing on the stack. -/
def ofConfiguration {size : Nat} (c : Configuration size) : ListMachine where
  low := Vector.ofFn fun register : Fin 7 => c.get register.castSucc
  pc := c.pc
  flags := c.processor.flags
  status := c.processor.status
  stack := []
  printed := c.printed

def get (base : Byte) (machine : ListMachine) (register : Register) : Byte :=
  if h : register.val < 7 then machine.low[register.val]
  else base - UInt8.ofNat machine.stack.length

def set? (machine : ListMachine) (register : Register) (value : Byte) : Option ListMachine :=
  if h : register.val < 7 then some { machine with low := machine.low.set register.val value }
  else none

/-- The effect of an instruction, of which those that need a byte on the stack may have none. -/
def perform? (base : Byte) (machine : ListMachine) : Instruction → Option (Flow × ListMachine)
  | .hlt => some (.next, { machine with status := .halted })
  | .ldi target value => (machine.set? target value).map fun after => (.next, after)
  | .prn source =>
    some (.next, { machine with printed := machine.printed ++ [machine.get base source] })
  | .arithmetic operation target source =>
    (machine.set? target (operation.apply (machine.get base target) (machine.get base source))).map
      fun after => (.next, after)
  | .push source => some (.next, { machine with stack := machine.get base source :: machine.stack })
  | .pop target =>
    match machine.stack with
    | [] => none
    | value :: rest =>
      ({ machine with stack := rest }.set? target value).map fun after => (.next, after)
  | .call target =>
    if (machine.pc + 2).toNat ≤ 0xFF then
      let after := { machine with stack := (machine.pc + 2).toUInt8 :: machine.stack }
      some (.jump (after.get base target).toUInt16, after)
    else none
  | .ret =>
    match machine.stack with
    | [] => none
    | value :: rest => some (.jump value.toUInt16, { machine with stack := rest })
  | .cmp left right =>
    some (.next, { machine with
      flags := Flags.compare (machine.get base left) (machine.get base right) })
  | .jmp target => some (.jump (machine.get base target).toUInt16, machine)
  | .branch condition target =>
    some (if machine.flags.meets condition then .jump (machine.get base target).toUInt16 else .next,
      machine)

def advance (machine : ListMachine) (opcode : Opcode) (flow : Flow) : ListMachine :=
  { machine with
    pc := match flow with
      | .next => machine.pc + UInt16.ofNat opcode.length
      | .jump target => target }

/-- One step over the given code. Nothing is defined where the code has no instruction. -/
def step? {size : Nat} (code : Memory size) (base : Byte) (machine : ListMachine) :
    Option ListMachine :=
  if machine.status = .halted then some machine
  else match code.instructionAt machine.pc with
    | .error _ => none
    | .ok i => (machine.perform? base i).map fun (flow, after) => after.advance i.opcode flow

def after? {size : Nat} (code : Memory size) (base : Byte) (machine : ListMachine) :
    Nat → Option ListMachine
  | 0 => some machine
  | count + 1 => (machine.after? code base count).bind (step? code base)

end ListMachine

end ByteMachine
