import ByteMachine.Proofs.Source.Acceptance
import ByteMachine.Proofs.Source.Malformed

/-! Which addresses the loader calls missing. The reader of a line never does, so such a problem
comes from carrying out a statement: from a label, or from a byte that is placed. Below the full
range of positions the address is then one that the memory has not got. In a memory that has a cell
for every position the loader blames the last cell, after it has filled it, because there is no
position behind it. -/
namespace ByteMachine.Source

variable {size : Nat}

namespace Problem

/-- A problem with the text of a line alone. -/
def Textual (problem : Problem) : Prop := problem.missingAddress? = none

/-- The problem calls an address missing only if the memory has not got it, or if it is the last of
all positions and the memory has a cell for each of them. -/
def Justified (size : Nat) (problem : Problem) : Prop :=
  ∀ address, problem.missingAddress? = some address →
    if size = addressCount then problem = .noRoom (addressCount - 1) else size ≤ address

theorem Textual.justified {problem : Problem} (textual : problem.Textual) :
    problem.Justified size := by
  intro address missing
  cases textual.symm.trans missing

end Problem

namespace Statement

open Text

/-- Whatever is wrong with the text of the statement says nothing about the memory, and a label
names a position. -/
def Plain : Statement → Prop
  | label (.ok address) => address < addressCount
  | label (.error problem) | instruction _ (.error problem) | bytes _ (some problem) =>
    problem.Textual
  | blank | unknown _ | instruction _ (.ok _) | bytes _ none => True

theorem textual_of_refused {tokens : List (List Char)} {problem : Problem}
    (refused : Refused tokens problem) : problem.Textual := by
  cases refused with
  | first => rfl

theorem plain_label (text : List Char) : (label (readLabel text)).Plain := by
  unfold readLabel
  split
  · exact rfl
  · cases read : Number.read 0xFFFF text with
    | ok address => exact Nat.lt_succ_of_le (read_le read)
    | error radix => exact rfl

theorem textual_of_readOperands {opcode : Opcode} {line : List Char} {tokens : List (List Char)}
    {problem : Problem} (refused : readOperands opcode line tokens = .error problem) :
    problem.Textual := by
  rcases readOperands_eq_error.mp refused with unread | ⟨values, _, _, _, rfl⟩
  · exact textual_of_refused unread
  · rfl

theorem plain_ofInstruction (line : List Char) : (ofInstruction line).Plain := by
  unfold ofInstruction
  simp only
  split
  · rename_i opcode _
    cases read : readOperands opcode line (words line).tail with
    | ok values => trivial
    | error problem => exact textual_of_readOperands read
  · trivial

theorem plain_ofBytes (line : List Char) : (ofBytes line).Plain := by
  cases read : ofBytes line with
  | bytes values flaw =>
    cases flaw with
    | none => trivial
    | some problem =>
      have flawed : (ofBytes line).flaw? 0 = some problem := by
        rw [read]
        rfl
      exact textual_of_refused (flaw?_ofBytes.mp flawed)
  | blank | label | instruction | unknown => cases read

/-- Reading a line never looks at the memory. -/
theorem plain_ofLine (raw : List Char) : (ofLine raw).Plain := by
  unfold ofLine
  simp only
  split
  · trivial
  · split
    · exact plain_label _
    · split
      · exact plain_ofInstruction _
      · exact plain_ofBytes _

end Statement

namespace Load

variable {problem : Problem}

/-- A position that exists is left, and the problem of an action that stops is justified. -/
def Allowed : EStateM.Result Problem (Draft size) Unit → Prop
  | .ok _ after => after.position < addressCount
  | .error problem after => after.position < addressCount ∧ problem.Justified size

/-- From a position that exists the action does only what is allowed. -/
def Keeps (action : Load size Unit) : Prop :=
  ∀ draft : Draft size, draft.position < addressCount → Allowed (action draft)

theorem Keeps.pure : Keeps (Pure.pure () : Load size Unit) :=
  fun _ within => within

theorem Keeps.throw (textual : problem.Textual) :
    Keeps (MonadExcept.throw problem : Load size Unit) :=
  fun _ within => ⟨within, textual.justified⟩

theorem Keeps.bind {first second : Load size Unit} (keeps : Keeps first) (keeps' : Keeps second) :
    Keeps (first >>= fun _ => second) := by
  intro draft within
  have allowed := keeps draft within
  change Allowed (EStateM.bind first (fun _ => second) draft)
  rw [EStateM.bind]
  cases ended : first draft with
  | ok _ between =>
    rw [ended] at allowed
    exact keeps' between allowed
  | error problem after =>
    rw [ended] at allowed
    exact allowed

/-- An address past the end of a memory is missing. -/
theorem justified_of_outside {address : Nat} (outside : size ≤ address)
    (existing : address < addressCount) (missing : problem.missingAddress? = some address) :
    problem.Justified size := by
  intro address' missing'
  cases missing.symm.trans missing'
  have few : size ≠ addressCount := by omega
  rwa [if_neg few]

/-- A byte that cannot be placed either finds no cell or has just filled the last of them all. -/
theorem keeps_place (fits : size ≤ addressCount) (byte : Byte) :
    Keeps (place byte : Load size Unit) := by
  rintro ⟨memory, position⟩ (within : position < addressCount)
  by_cases inside : position < size
  · by_cases more : position + 1 < addressCount
    · simp only [place_apply, if_pos inside, if_pos more]
      exact more
    · have full : size = addressCount := by omega
      have last : position = addressCount - 1 := by omega
      simp only [place_apply, if_pos inside, if_neg more]
      refine ⟨within, fun address _ => ?_⟩
      rw [if_pos full, last]
  · simp only [place_apply, if_neg inside]
    exact ⟨within, justified_of_outside (Nat.le_of_not_lt inside) within rfl⟩

theorem keeps_placeAll (fits : size ≤ addressCount) (bytes : List Byte) :
    Keeps (placeAll bytes : Load size Unit) := by
  induction bytes with
  | nil => exact .pure
  | cons byte bytes ih => exact (keeps_place fits byte).bind ih

theorem keeps_moveTo {address : Nat} (existing : address < addressCount) :
    Keeps (moveTo address : Load size Unit) := by
  intro draft within
  by_cases inside : address < size
  · simp only [moveTo, if_pos inside]
    exact existing
  · simp only [moveTo, if_neg inside]
    exact ⟨within, justified_of_outside (Nat.le_of_not_lt inside) existing rfl⟩

theorem keeps_statement (fits : size ≤ addressCount) {statement : Statement}
    (plain : statement.Plain) : Keeps (Load.statement statement : Load size Unit) := by
  cases statement with
  | blank => exact .pure
  | label address =>
    cases address with
    | ok address => exact keeps_moveTo plain
    | error problem => exact .throw plain
  | instruction opcode operands =>
    cases operands with
    | ok values => exact keeps_placeAll fits (opcode.byte :: values)
    | error problem => exact .throw plain
  | unknown name => exact .throw rfl
  | bytes values flaw =>
    cases flaw with
    | none => exact keeps_placeAll fits values
    | some problem => exact (keeps_placeAll fits values).bind (.throw plain)

end Load

namespace Progress

/-- What holds between any two lines. -/
structure Sound (progress : Progress size) : Prop where
  position : progress.draft.position < addressCount
  justified : ∀ diagnostic ∈ progress.diagnostics.toList, diagnostic.problem.Justified size

theorem sound_start (memory : Memory size) : (start memory).Sound where
  position := (by decide : 0 < addressCount)
  justified := List.forall_mem_nil _

/-- A line that has a problem is left where the problem was met, and so is the position. -/
theorem sound_line (fits : size ≤ addressCount) {progress : Progress size}
    (sound : progress.Sound) (number : Nat) (raw : List Char) :
    (progress.line number raw).Sound := by
  obtain ⟨draft, diagnostics, records⟩ := progress
  have allowed := Load.keeps_statement fits (Statement.plain_ofLine raw) draft sound.position
  unfold line
  cases ended : Load.statement (Statement.ofLine raw) draft with
  | ok _ after =>
    rw [ended] at allowed
    simpa only [ended] using ⟨allowed, sound.justified⟩
  | error problem after =>
    rw [ended] at allowed
    obtain ⟨position, justified⟩ := allowed
    simp only [ended]
    refine ⟨position, fun diagnostic listed => ?_⟩
    rcases List.mem_append.mp (Array.toList_push ▸ listed) with earlier | latest
    · exact sound.justified diagnostic earlier
    · rw [List.mem_singleton.mp latest]
      exact justified

theorem result_eq_error {progress : Progress size} {diagnostics : List Diagnostic}
    (failed : progress.result = .error diagnostics) :
    progress.diagnostics.toList = diagnostics := by
  unfold result at failed
  split at failed
  · contradiction
  · exact Except.error.inj failed

end Progress

/-- An address that the loader calls missing is past the end of the memory, unless the memory has a
cell for every position. Then only the last cell is ever called missing. -/
theorem missing_addresses_past_end (fits : size ≤ 0x10000) (memory : Memory size)
    (text : List Char) :
    ∀ diagnostics, (load memory text).result = .error diagnostics →
      ∀ diagnostic ∈ diagnostics, ∀ address,
        diagnostic.problem.missingAddress? = some address →
          if size = 0x10000 then diagnostic.problem = .noRoom 0xFFFF else size ≤ address := by
  intro diagnostics failed diagnostic listed
  have sound : (load memory text).Sound := load_induction (Progress.sound_start memory)
    (fun _ number raw kept => Progress.sound_line fits kept number raw) text
  rw [← Progress.result_eq_error failed] at listed
  exact sound.justified diagnostic listed

/-- A byte behind the last cell, and a label further on. -/
theorem missing_addresses_of_short_memory :
    ∃ diagnostics,
      (load (.zeros : Memory 4) "3:\n1 2\n0x7:".toList).result = .error diagnostics ∧
      diagnostics.map (·.problem.missingAddress?) = [some 4, some 7] ∧
      ∀ diagnostic ∈ diagnostics, ∀ address, diagnostic.problem.missingAddress? = some address →
        4 ≤ address := by
  have failed : (load (.zeros : Memory 4) "3:\n1 2\n0x7:".toList).result =
      .error [⟨2, .noRoom 4⟩, ⟨3, .labelOutside 7⟩] := by rfl
  exact ⟨_, failed, rfl, missing_addresses_past_end (by decide) .zeros _ _ failed⟩

/-- The last cell of the largest memory is called missing although the label before the byte has
found it. -/
theorem last_address_called_missing :
    ∃ diagnostics,
      (load (.zeros : Memory 0x10000) "65535:\n0".toList).result = .error diagnostics ∧
      ∃ diagnostic ∈ diagnostics, ∃ address,
        diagnostic.problem.missingAddress? = some address ∧ address < 0x10000 := by
  have failed : (load (.zeros : Memory 0x10000) "65535:\n0".toList).diagnostics =
      #[⟨2, .noRoom 0xFFFF⟩] := by decide +kernel
  refine ⟨[⟨2, .noRoom 0xFFFF⟩], ?_, _, List.mem_singleton_self _, 0xFFFF, rfl, by decide⟩
  rw [Progress.result, failed]
  rfl

end ByteMachine.Source
