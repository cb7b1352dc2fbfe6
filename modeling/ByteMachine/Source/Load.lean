import ByteMachine.Log
import ByteMachine.Memory.Basic
import ByteMachine.Source.Statement

/-!
Loading a program text into memory. Statements place their bytes one after another from a position
that labels set. A line with a problem does not stop the loading of the next one, and what it had
placed before the problem stays placed, so every malformed line is reported in one go.
-/

namespace ByteMachine.Source

variable {size : Nat}

/-- A memory under construction. -/
structure Draft (size : Nat) where
  memory : Memory size
  position : Nat
  deriving DecidableEq

/-- Part of the loading of one line. -/
abbrev Load (size : Nat) := EStateM Problem (Draft size)

namespace Load

/-- Places a byte and moves on behind it. At the last position there is nowhere to move on to, which
counts as a lack of room although the byte has found its place. -/
def place (byte : Byte) : Load size Unit := fun ⟨memory, position⟩ =>
  match Edit.write position byte memory with
  | .ok _ memory =>
    if position + 1 < addressCount then .ok () ⟨memory, position + 1⟩
    else .error (.noRoom position) ⟨memory, position⟩
  | .error _ memory => .error (.noRoom position) ⟨memory, position⟩

theorem place_apply (byte : Byte) (memory : Memory size) (position : Nat) :
    place byte ⟨memory, position⟩ =
      if position < size then
        if position + 1 < addressCount then .ok () ⟨memory.set position byte, position + 1⟩
        else .error (.noRoom position) ⟨memory.set position byte, position⟩
      else .error (.noRoom position) ⟨memory, position⟩ := by
  rw [place, Edit.write_apply]
  by_cases inside : position < size
  · simp only [if_pos inside]
  · simp only [if_neg inside]

def moveTo (address : Nat) : Load size Unit := fun draft =>
  if address < size then .ok () { draft with position := address }
  else .error (.labelOutside address) draft

def placeAll (bytes : List Byte) : Load size Unit :=
  bytes.forM place

def statement : Statement → Load size Unit
  | .blank => return ()
  | .label (.ok address) => moveTo address
  | .label (.error problem) => throw problem
  | .instruction opcode (.ok operands) => placeAll (opcode.byte :: operands)
  | .instruction _ (.error problem) => throw problem
  | .unknown name => throw (.unknownMnemonic name)
  | .bytes values none => placeAll values
  | .bytes values (some problem) => do
    placeAll values
    throw problem

end Load

/-- The state of loading between two lines. -/
structure Progress (size : Nat) where
  draft : Draft size
  diagnostics : Array Diagnostic
  records : Array Record
  deriving DecidableEq

namespace Progress

def start (memory : Memory size) : Progress size :=
  { draft := ⟨memory, 0⟩, diagnostics := #[], records := #[] }

def record (level : Level) (text : String) : Record :=
  ⟨level, .loader, text⟩

/-- Loads the line with the given number. -/
def line (number : Nat) (text : List Char) : Progress size → Progress size
  | ⟨draft, diagnostics, records⟩ =>
    let statement := Statement.ofLine text
    let notes := (statement.notes size).map fun note =>
      record .debug ("[" ++ toString number ++ "] " ++ note)
    let records := records ++ notes
    match Load.statement statement draft with
    | .ok _ draft => ⟨draft, diagnostics, records⟩
    | .error problem draft =>
      let diagnostic : Diagnostic := ⟨number, problem⟩
      ⟨draft, diagnostics.push diagnostic, records.push (record .error diagnostic.text)⟩

/-- The loaded memory, or everything that was wrong with the program. -/
def result (progress : Progress size) : Except (List Diagnostic) (Memory size) :=
  if progress.diagnostics.isEmpty then .ok progress.draft.memory
  else .error progress.diagnostics.toList

end Progress

/-- Loads a program into a memory. -/
def load (memory : Memory size) (text : List Char) : Progress size :=
  ((Text.lines text).zipIdx 1).foldl (fun progress (line, number) => progress.line number line)
    (.start memory)

/-- What holds at the start and is kept by every line holds of a loaded program. -/
theorem load_induction {holds : Progress size → Prop} {memory : Memory size}
    (start : holds (.start memory))
    (line : ∀ progress number raw, holds progress → holds (progress.line number raw))
    (text : List Char) : holds (load memory text) :=
  List.foldlRecOn _ _ start fun progress kept (raw, number) _ => line progress number raw kept

end ByteMachine.Source
