import ByteMachine.Instruction
import ByteMachine.Machine.Basic

/-!
One turn of the processor: fetch, decode, execute. An instruction that succeeds leaves one debug
record of what it did; one that faults leaves none. The program counter is sixteen bits wide: bytes
behind its last value are not fetched, and where it moves on past that value, or a call returns
past it, it goes on at zero.
-/

namespace ByteMachine.Exec

open Text

variable {size : Nat}

/-- Stores a byte below the top of the stack and moves the stack pointer there. -/
def push (value : Byte) : Exec size Unit := do
  let processor ← processor
  let sp := processor.registers.sp
  if sp = 0 then throw (.stackOverflow sp processor.pc)
  else do
    store (sp.toNat - 1) value
    setRegister .stackPointer (sp - 1)

/-- Takes the byte at the top of the stack. The cell above it has to exist too, because the stack
pointer moves there. -/
def pop : Exec size Byte := do
  let processor ← processor
  let sp := processor.registers.sp
  if size ≤ sp.toNat then throw (.addressOutOfRange sp.toNat)
  else if size ≤ sp.toNat + 1 ∨ sp = 0xFF then throw (.stackUnderflow sp processor.pc)
  else do
    let value ← load sp.toNat
    setRegister .stackPointer (sp + 1)
    return value

/-- A push checks the stack pointer and the cell below it before it changes either. -/
theorem push_apply (value : Byte) (machine : Machine size) :
    push value machine =
      let processor := machine.processor
      let sp := processor.registers.sp
      if sp = 0 then .error (.stackOverflow sp processor.pc) machine
      else if sp.toNat - 1 < size then
        .ok () { machine with
          processor := { processor with
            registers := processor.registers.set .stackPointer (sp - 1) }
          memory := machine.memory.set (sp.toNat - 1) value }
      else .error (.addressOutOfRange (sp.toNat - 1)) machine := by
  simp only [push, processor, store_apply, setRegister, changeProcessor, bind_apply, ite_apply,
    throw_apply]
  by_cases empty : machine.processor.registers.sp = 0
  · simp only [empty, ↓reduceIte]
  · by_cases room : machine.processor.registers.sp.toNat - 1 < size
    · simp only [empty, room, ↓reduceIte]
    · simp only [empty, room, ↓reduceIte]

/-- A pop checks the cell at the stack pointer and the next one before it moves. -/
theorem pop_apply (machine : Machine size) :
    pop machine =
      let processor := machine.processor
      let sp := processor.registers.sp
      if size ≤ sp.toNat then .error (.addressOutOfRange sp.toNat) machine
      else if size ≤ sp.toNat + 1 ∨ sp = 0xFF then .error (.stackUnderflow sp processor.pc) machine
      else
        .ok ((machine.memory.get? sp.toNat).getD 0) { machine with
          processor := { processor with
            registers := processor.registers.set .stackPointer (sp + 1) } } := by
  simp only [pop, processor, load_apply, setRegister, changeProcessor, bind_apply, pure_apply,
    ite_apply, throw_apply]
  split
  · rfl
  · rename_i inside
    split
    · rfl
    · obtain ⟨value, content⟩ := machine.memory.get?_of_lt (Nat.lt_of_not_ge inside)
      simp only [content, Option.getD_some]

/-- The mnemonic of an instruction with its first register. -/
def named (opcode : Opcode) (register : Register) : String :=
  opcode.mnemonic ++ " R" ++ toString register.val

def pair (opcode : Opcode) (left right : Register) : String :=
  named opcode left ++ " R" ++ toString right.val

def location (byte : Byte) : String :=
  "0x" ++ upperHex 2 byte.toNat

/-- The effect of an instruction on everything but the program counter, with an account of it for
the log. -/
def perform : Instruction → Exec size (Flow × String)
  | .hlt => do
    changeProcessor fun p => { p with status := .halted }
    return (.next, Opcode.hlt.mnemonic)
  | .ldi target value => do
    setRegister target value
    return (.next, named .ldi target ++ " " ++ toString value.toNat)
  | .prn source => do
    let value ← readRegister source
    emit value
    return (.next, named .prn source ++ ": " ++ toString value.toNat)
  | .arithmetic operation target source => do
    let result := operation.apply (← readRegister target) (← readRegister source)
    setRegister target result
    return (.next, pair operation.opcode target source ++ ": " ++ toString result.toNat)
  | .push source => do
    let value ← readRegister source
    push value
    return (.next, named .push source ++ ": " ++ toString value.toNat)
  | .pop target => do
    let value ← pop
    setRegister target value
    return (.next, named .pop target ++ ": " ++ toString value.toNat)
  | .call register => do
    let back := (← processor).pc + 2
    if 0xFF < back.toNat then throw (.addressOutOfRange back.toNat)
    else do
      push back.toUInt8
      let target ← readRegister register
      return (.jump target.toUInt16, named .call register ++ ": " ++ location target ++
        " (return to " ++ location back.toUInt8 ++ ")")
  | .ret => do
    let target ← pop
    return (.jump target.toUInt16, Opcode.ret.mnemonic ++ " " ++ location target)
  | .cmp left right => do
    let flags := Flags.compare (← readRegister left) (← readRegister right)
    changeProcessor fun p => { p with flags }
    return (.next, pair .cmp left right ++ ": " ++ flags.text)
  | .jmp register => do
    let target ← readRegister register
    return (.jump target.toUInt16, named .jmp register ++ ": " ++ location target)
  | .branch condition register => do
    let target ← readRegister register
    let taken := (← processor).flags.meets condition
    let account := named (Instruction.branch condition register).opcode register ++ ": " ++
      location target ++ " (taken: " ++ toString taken ++ ")"
    return (if taken then .jump target.toUInt16 else .next, account)

/-- Executes an opcode with two operand bytes where the program counter stands, and leaves it to
the caller to move on. -/
def execute (opcode : Opcode) (a b : Byte) : Exec size Flow := do
  let pc := (← processor).pc
  match Instruction.decode opcode a b with
  | .error index => throw (.invalidRegister index pc)
  | .ok instruction => do
    let (flow, account) ← perform instruction
    log .debug (upperHex 2 pc.toNat ++ ": " ++ account)
    return flow

/-- Reads the byte that lies the given distance past the program counter. What would lie behind the
last address is out of range in a memory of any size. -/
def fetch (distance : Nat) : Exec size Byte := do
  let address := (← processor).pc.toNat + distance
  if address < addressCount then load address
  else throw (.addressOutOfRange address)

def fetchOpcode : Exec size Opcode := do
  let byte ← fetch 0
  match Opcode.ofByte? byte with
  | some opcode => return opcode
  | none => throw (.invalidOpcode byte (← processor).pc)

/-- Reads an operand byte. Two of them are read for every instruction; one that the instruction
does not take counts as zero where the memory has ended. -/
def fetchOperand (opcode : Opcode) (position : Nat) : Exec size Byte :=
  if position ≤ opcode.operandCount then fetch position
  else tryCatch (fetch position) fun _ => pure 0

/-- Moves the program counter on after an instruction. -/
def advance (opcode : Opcode) (flow : Flow) : Exec size Unit :=
  changeProcessor fun p =>
    match flow with
    | .next => { p with pc := p.pc + UInt16.ofNat opcode.length }
    | .jump target => { p with pc := target }

/-- One fetch-decode-execute cycle. A halted machine stays as it is. -/
def step : Exec size Status := do
  let before ← processor
  if before.isHalted then return .halted
  else do
    let opcode ← fetchOpcode
    let a ← fetchOperand opcode 1
    let b ← fetchOperand opcode 2
    log .trace before.trace
    let flow ← execute opcode a b
    advance opcode flow
    return (← processor).status

end ByteMachine.Exec
