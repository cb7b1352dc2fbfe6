import ByteMachine.Proofs.Source.Listing
import ByteMachine.Proofs.Source.Reports
import ByteMachine.Proofs.Source.Words

/-! Lines that can stand in for others. What a line does shows in the memory under construction that
it leaves and in the problem that it may meet. Where two lines do the same, one can replace the
other in every text, with whatever is wrong around it; so instructions can be written as the bytes
that they stand for. -/
namespace ByteMachine.Source

open Text

variable {size : Nat}

/-- What an action comes to: the problem that it meets, if any, and the draft that it leaves. -/
def Load.outcome (action : Load size Unit) (draft : Draft size) : Option Problem × Draft size :=
  match action draft with
  | .ok _ after => (none, after)
  | .error problem after => (some problem, after)

namespace Draft

/-- What loading a line comes to. -/
def line (draft : Draft size) (raw : List Char) : Option Problem × Draft size :=
  (Load.statement (Statement.ofLine raw)).outcome draft

/-- The draft that lines leave. -/
def through (draft : Draft size) (rows : List (List Char)) : Draft size :=
  rows.foldl (fun draft raw => (draft.line raw).2) draft

/-- The problems that lines meet, the first of which has the number one. -/
def reports (draft : Draft size) : List (List Char) → List Diagnostic
  | [] => []
  | raw :: rows =>
    (draft.line raw).1.toList.map (⟨1, ·⟩) ++ ((draft.line raw).2.reports rows).map (·.raised 1)

end Draft

namespace Progress

theorem line_eq (number : Nat) (raw : List Char) (progress : Progress size) :
    (progress.line number raw).draft = (progress.draft.line raw).2 ∧
      (progress.line number raw).diagnostics.toList = progress.diagnostics.toList ++
        (progress.draft.line raw).1.toList.map (⟨number, ·⟩) := by
  obtain ⟨draft, diagnostics, records⟩ := progress
  cases ended : Load.statement (Statement.ofLine raw) draft with
  | ok _ after => simp [line, Draft.line, Load.outcome, ended]
  | error problem after => simp [line, Draft.line, Load.outcome, ended]

/-- The lines of a program in their order, apart from the records of their loading. -/
theorem through_eq (number : Nat) (rows : List (List Char)) (progress : Progress size) :
    (progress.through (1 + number) rows).draft = progress.draft.through rows ∧
      (progress.through (1 + number) rows).diagnostics.toList = progress.diagnostics.toList ++
        (progress.draft.reports rows).map (·.raised number) := by
  induction rows generalizing number progress with
  | nil => exact ⟨rfl, (List.append_nil _).symm⟩
  | cons raw rows ih =>
    obtain ⟨draft, diagnostics⟩ := progress.line_eq (1 + number) raw
    obtain ⟨left, reported⟩ := ih (number + 1) (progress.line (1 + number) raw)
    rw [draft] at left reported
    rw [diagnostics] at reported
    have later (report : Diagnostic) :
        (report.raised 1).raised number = report.raised (number + 1) := by
      rw [Diagnostic.raised_raised, Nat.add_comm]
    refine ⟨left, reported.trans ?_⟩
    simp only [Draft.reports, List.map_append, List.map_map, Function.comp_def, later,
      List.append_assoc]
    rfl

theorem result_eq_ok_iff {progress : Progress size} {memory : Memory size} :
    progress.result = .ok memory ↔ progress.errors = [] ∧ progress.draft.memory = memory := by
  rw [result_eq_ok, errors_eq, Array.toList_eq_nil_iff]
  constructor
  · rintro ⟨_, ⟨flawless, rfl⟩, stored⟩
    exact ⟨flawless, stored⟩
  · rintro ⟨flawless, stored⟩
    exact ⟨_, ⟨flawless, rfl⟩, stored⟩

end Progress

theorem load_reports (memory : Memory size) (text : List Char) :
    (load memory text).draft = Draft.through ⟨memory, 0⟩ (lines text) ∧
      (load memory text).errors = Draft.reports ⟨memory, 0⟩ (lines text) := by
  obtain ⟨draft, diagnostics⟩ := Progress.through_eq 0 (lines text) (.start memory)
  refine ⟨draft, ?_⟩
  rw [Progress.errors_eq]
  exact diagnostics.trans (List.map_id _)

theorem load_result (memory : Memory size) (text : List Char) :
    (load memory text).result =
      if Draft.reports ⟨memory, 0⟩ (lines text) = [] then
        .ok (Draft.through ⟨memory, 0⟩ (lines text)).memory
      else .error (Draft.reports ⟨memory, 0⟩ (lines text)) := by
  obtain ⟨draft, errors⟩ := load_reports memory text
  rw [← draft, ← errors]
  split
  · rename_i flawless
    exact Progress.result_eq_ok_iff.mpr ⟨flawless, rfl⟩
  · rename_i flawed
    exact Progress.result_of_errors flawed

/-- Two lines do the same to every draft, and their problems look the same. -/
def Alike {κ : Type} (size : Nat) (view : Problem → κ) (raw raw' : List Char) : Prop :=
  ∀ draft : Draft size,
    Prod.map (Option.map view) id (draft.line raw') = Prod.map (Option.map view) id (draft.line raw)

section Alike

variable {κ : Type} {view : Problem → κ}

theorem Alike.of_eq {raw raw' : List Char} (same : Statement.ofLine raw' = Statement.ofLine raw) :
    Alike size view raw raw' := by
  intro draft
  rw [Draft.line, Draft.line, same]

theorem Alike.trans {raw raw' raw'' : List Char} (first : Alike size view raw raw')
    (second : Alike size view raw' raw'') : Alike size view raw raw'' :=
  fun draft => (second draft).trans (first draft)

/-- What a report looks like. -/
def Diagnostic.outline (view : Problem → κ) (diagnostic : Diagnostic) : Nat × κ :=
  (diagnostic.line, view diagnostic.problem)

theorem Diagnostic.outline_injective : Function.Injective (Diagnostic.outline id) := by
  rintro ⟨line, problem⟩ ⟨line', problem'⟩ same
  obtain ⟨rfl, rfl⟩ := Prod.mk.inj same
  rfl

theorem Draft.outline_reports_cons (draft : Draft size) (raw : List Char)
    (rows : List (List Char)) :
    (draft.reports (raw :: rows)).map (·.outline view) =
      ((draft.line raw).1.map view).toList.map (1, ·) ++
        (((draft.line raw).2.reports rows).map (·.outline view)).map (Prod.map (· + 1) id) := by
  rw [reports, List.map_append, List.map_map, List.map_map, List.map_map]
  cases (draft.line raw).1 <;> rfl

/-- Lines that are alike, each for each, leave the same and are blamed for what looks the same. -/
theorem Draft.through_alike {rows rows' : List (List Char)}
    (alike : List.Forall₂ (Alike size view) rows rows') (draft : Draft size) :
    draft.through rows' = draft.through rows ∧
      (draft.reports rows').map (·.outline view) = (draft.reports rows).map (·.outline view) := by
  induction alike generalizing draft with
  | nil => exact ⟨rfl, rfl⟩
  | @cons raw raw' rows rows' first _ ih =>
    obtain ⟨problem, after⟩ := Prod.ext_iff.mp (first draft)
    have problem : (draft.line raw').1.map view = (draft.line raw).1.map view := problem
    have after : (draft.line raw').2 = (draft.line raw).2 := after
    obtain ⟨left, reported⟩ := ih (draft.line raw).2
    constructor
    · change (draft.line raw').2.through rows' = (draft.line raw).2.through rows
      rw [after, left]
    · rw [outline_reports_cons, outline_reports_cons, problem, after, reported]

end Alike

/-- Lines that mean bytes do nothing but place them. -/
theorem statement_of_means {raw : List Char} {values : List Byte}
    (means : Means size (trim (uncommented raw)) (.bytes values)) :
    (Load.statement (Statement.ofLine raw) : Load size Unit) = Load.placeAll values := by
  have meant := means_iff.mp means
  generalize Statement.ofLine raw = statement at meant
  cases statement with
  | blank =>
    cases meant
    rfl
  | label address =>
    cases address with
    | error => contradiction
    | ok address => simp [Statement.meaning?] at meant
  | instruction opcode operands =>
    cases operands with
    | error => contradiction
    | ok operands =>
      cases meant
      rfl
  | unknown => contradiction
  | bytes listed flaw =>
    cases flaw with
    | some => contradiction
    | none =>
      cases meant
      rfl

/-- Lines that mean the same bytes are alike, however each of them is written. -/
theorem Alike.of_means {raw raw' : List Char} {values : List Byte}
    (means : Means size (trim (uncommented raw)) (.bytes values))
    (means' : Means size (trim (uncommented raw')) (.bytes values)) : Alike size id raw raw' := by
  intro draft
  rw [Draft.line, Draft.line, statement_of_means means, statement_of_means means']

/-- The first line is short for the second: a mnemonic, with all the operands of its instruction or
with none, for the byte of the opcode and the same operands in any notation. -/
def Abbreviates (short long : List Char) : Prop :=
  ∃ name tokens opcode operands, words (uncommented short) = name :: tokens ∧
    Spells name opcode ∧ Denote tokens operands ∧
    (operands = [] ∨ operands.length = opcode.operandCount) ∧
    Denote (words (uncommented long)) (opcode.byte :: operands)

section Words

variable {text name : List Char} {tokens : List (List Char)} {values : List Byte}

theorem solid_of_denote (denoted : Denote tokens values) : ∀ token ∈ tokens, Solid token :=
  solid_of_operands (denote_iff_operands.mp denoted)

/-- A line of solid words is no label. -/
theorem unlabelled_of_solid (solid : ∀ word ∈ words text, Solid word) : ¬ [':'] <:+ trim text := by
  rw [suffix_trim_iff]
  intro last
  obtain ⟨word, known, member⟩ := List.mem_flatten.mp (List.mem_of_getLast? last)
  exact absurd ((solid word known).plain ':' member) (by decide)

theorem means_of_mnemonic {opcode : Opcode} (split : words text = name :: tokens)
    (spelled : Spells name opcode) (denoted : Denote tokens values)
    (complete : values = [] ∨ values.length = opcode.operandCount) :
    Means size (trim text) (.bytes (opcode.byte :: values)) := by
  have word := solid_of_spells spelled
  have solid : ∀ word ∈ words text, Solid word :=
    split ▸ List.forall_mem_cons.mpr ⟨word, solid_of_denote denoted⟩
  refine .instruction (unlabelled_of_solid solid) ?_ ((words_trim text).trans split) spelled denoted
    complete
  obtain ⟨c, rest, rfl⟩ := List.exists_cons_of_ne_nil word.nonempty
  rw [head?_trim, split]
  exact isAlpha_of_spells spelled c List.mem_cons_self

theorem means_of_bytes (some : values ≠ []) (denoted : Denote (words text) values) :
    Means size (trim text) (.bytes values) := by
  have solid := solid_of_denote denoted
  obtain ⟨value, values, rfl⟩ := List.exists_cons_of_ne_nil some
  cases split : words text with
  | nil =>
    rw [split] at denoted
    cases denoted
  | cons token tokens =>
    have nonblank : trim text ≠ [] := by
      rw [ne_eq, trim_eq_nil_iff, split]
      exact List.cons_ne_nil _ _
    have first : token ≠ [] := (solid token (split ▸ List.mem_cons_self)).nonempty
    refine .bytes nonblank (unlabelled_of_solid solid) ?_ (by rwa [words_trim])
    rw [split] at denoted
    obtain ⟨_, _, denotes, _, same⟩ :=
      List.forall₂_cons_left_iff.mp (denote_iff_operands.mp denoted)
    rw [head?_trim, split, List.flatten_cons, List.head?_append_of_ne_nil _ first]
    exact denotes.head_not_alpha

end Words

theorem Abbreviates.alike {short long : List Char} (abbreviates : Abbreviates short long) :
    Alike size id short long := by
  obtain ⟨name, tokens, opcode, operands, split, spelled, denoted, complete, listed⟩ := abbreviates
  exact .of_means (means_of_mnemonic split spelled denoted complete)
    (means_of_bytes (List.cons_ne_nil _ _) listed)

/-- Writing instructions out as their bytes, in any number of lines, changes nothing in what a text
is loaded as: neither the memory nor what is wrong with any of its lines. -/
theorem mnemonics_are_shorthand (memory : Memory size) {text text' : List Char}
    (replaced : List.Forall₂ (fun line line' => line' = line ∨ Abbreviates line line')
      (lines text) (lines text')) : (load memory text').result = (load memory text).result := by
  have alike : List.Forall₂ (Alike size id) (lines text) (lines text') := by
    refine replaced.imp fun line line' either => ?_
    rcases either with rfl | abbreviates
    · exact .of_eq rfl
    · exact abbreviates.alike
  obtain ⟨left, outlines⟩ := Draft.through_alike alike ⟨memory, 0⟩
  have reported := List.map_injective_iff.mpr Diagnostic.outline_injective outlines
  rw [load_result, load_result, left, reported]

/-- The memory ends in the middle of the first instruction, which decides about all later lines. -/
theorem expanded_mnemonics_without_room :
    (load (.zeros : Memory 2) "10011001 +1 0x03\nFOO\n\t170 # all\n0 1".toList).result =
      (load .zeros "ldi 1 0b11 # three\nFOO\nMul\n0 1".toList).result := by
  have ldi : Abbreviates "ldi 1 0b11 # three".toList "10011001 +1 0x03".toList :=
    ⟨"ldi".toList, ["1".toList, "0b11".toList], .ldi, [1, 3], by decide,
      by unfold Spells; decide, by unfold Denote; decide, .inr rfl, by unfold Denote; decide⟩
  have mul : Abbreviates "Mul".toList "\t170 # all".toList :=
    ⟨"Mul".toList, [], .mul, [], by decide, by unfold Spells; decide, .nil, .inl rfl,
      by unfold Denote; decide⟩
  exact mnemonics_are_shorthand .zeros (.cons (.inr ldi) (.cons (.inl rfl) (.cons (.inr mul)
    (.cons (.inl rfl) .nil))))

end ByteMachine.Source
