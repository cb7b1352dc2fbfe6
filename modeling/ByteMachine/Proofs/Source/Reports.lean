import ByteMachine.Proofs.Source.Acceptance
import ByteMachine.Proofs.Source.Malformed
import ByteMachine.Proofs.Source.Records

/-! Which lines of a program text are blamed, and for what. A line with a flaw is reported once, in
whatever text it stands, and a line without one only if its bytes run into the end of the memory.
So all that a line needs to know of the lines before it is the position that they left. -/
namespace ByteMachine.Source

open Text

variable {size : Nat}

/-- The same problem on a line further down. -/
def Diagnostic.raised (count : Nat) (diagnostic : Diagnostic) : Diagnostic :=
  { diagnostic with line := diagnostic.line + count }

theorem Diagnostic.raised_raised (first second : Nat) (diagnostic : Diagnostic) :
    (diagnostic.raised first).raised second = diagnostic.raised (first + second) := by
  simp only [raised, Nat.add_assoc]

namespace Statement

/-- The bytes that a statement places, as far as it could be read. -/
def values : Statement → List Byte
  | instruction opcode (.ok operands) => opcode.byte :: operands
  | bytes values _ => values
  | blank | label _ | unknown _ | instruction _ (.error _) => []

/-- The problem with a statement at a position. Bytes that could be read come first, and they may
have no room. -/
def problem? (size position : Nat) (statement : Statement) : Option Problem :=
  if position + statement.values.length ≤ size then statement.flaw? size else some (.noRoom size)

/-- The position behind a statement. Bytes without room do not move it past the end. -/
def reach (size position : Nat) : Statement → Nat
  | label (.ok address) => if address < size then address else position
  | statement => min (position + statement.values.length) size

theorem reach_le {position : Nat} (statement : Statement) (within : position ≤ size) :
    statement.reach size position ≤ size := by
  unfold reach
  split
  · split
    · exact Nat.le_of_lt ‹_›
    · exact within
  · exact Nat.min_le_right _ _

end Statement

namespace Load

variable {draft : Draft size}

/-- How an action ends: with the problem that stopped it, if any, and at a position. -/
def ends (action : Load size Unit) (draft : Draft size) : Option Problem × Nat :=
  match action draft with
  | .ok _ after => (none, after.position)
  | .error problem after => (some problem, after.position)

theorem ends_bind (first second : Load size Unit) (draft : Draft size) :
    ends (first >>= fun _ => second) draft =
      match first draft with
      | .ok _ between => ends second between
      | .error problem after => (some problem, after.position) := by
  have sequence : (first >>= fun _ => second) draft = EStateM.bind first (fun _ => second) draft :=
    rfl
  simp only [ends, sequence, EStateM.bind]
  cases first draft <;> rfl

theorem ends_bind_throw (action : Load size Unit) (problem : Problem) (draft : Draft size) :
    ends (action >>= fun _ => throw problem) draft =
      ((ends action draft).1.or (some problem), (ends action draft).2) := by
  rw [ends_bind]
  unfold ends
  cases action draft <;> rfl

theorem ends_placeAll (addressable : size ≤ 0xFFFF) (within : draft.position ≤ size)
    (values : List Byte) :
    ends (placeAll values) draft =
      (if draft.position + values.length ≤ size then none else some (.noRoom size),
        min (draft.position + values.length) size) := by
  induction values generalizing draft with
  | nil =>
    rw [List.length_nil, Nat.add_zero, if_pos within, Nat.min_eq_left within]
    rfl
  | cons value values ih =>
    have split : ends (placeAll (value :: values)) draft = _ :=
      ends_bind (place value) (placeAll values) draft
    rw [split, List.length_cons, Nat.add_comm values.length, ← Nat.add_assoc]
    by_cases inside : draft.position < size
    · rw [(place_eq_ok addressable).mpr ⟨inside, rfl⟩]
      exact ih inside
    · have refused : place value draft = .error (.noRoom draft.position) draft :=
        (place_apply value draft.memory draft.position).trans (if_neg inside)
      have full : draft.position = size := Nat.le_antisymm within (Nat.le_of_not_lt inside)
      rw [refused, if_neg (by omega), Nat.min_eq_right (by omega), full]
      exact congrArg (_, ·) full

/-- What carrying out a statement comes to, apart from the memory that it leaves. -/
theorem ends_statement (addressable : size ≤ 0xFFFF) (within : draft.position ≤ size)
    (statement : Statement) :
    ends (Load.statement statement) draft =
      (statement.problem? size draft.position, statement.reach size draft.position) := by
  have placed (values : List Byte) := ends_placeAll addressable within values
  -- a statement without bytes stays where it is
  have room : draft.position + 0 ≤ size := within
  have stays : min (draft.position + 0) size = draft.position := Nat.min_eq_left within
  cases statement with
  | blank => exact Prod.ext (if_pos room).symm stays.symm
  | label address =>
    cases address with
    | error problem => exact Prod.ext (if_pos room).symm stays.symm
    | ok address =>
      have flaw : (Statement.label (.ok address)).problem? size draft.position = _ := if_pos room
      rw [flaw]
      by_cases inside : address < size
      · simp [ends, Load.statement, moveTo, Statement.flaw?, Statement.reach, inside]
      · simp [ends, Load.statement, moveTo, Statement.flaw?, Statement.reach, inside]
  | instruction opcode operands =>
    cases operands with
    | error problem => exact Prod.ext (if_pos room).symm stays.symm
    | ok values => exact placed (opcode.byte :: values)
  | unknown name => exact Prod.ext (if_pos room).symm stays.symm
  | bytes values flaw =>
    cases flaw with
    | none => exact placed values
    | some problem =>
      have split : ends (Load.statement (.bytes values (some problem))) draft = _ :=
        ends_bind_throw (placeAll values) problem draft
      rw [split, placed]
      refine Prod.ext ?_ rfl
      by_cases enough : draft.position + values.length ≤ size <;>
        simp [Statement.problem?, Statement.values, Statement.flaw?, enough]

end Load

/-- The reports on lines that are numbered from one on and start at a position. -/
def reports (size number position : Nat) : List (List Char) → List Diagnostic
  | [] => []
  | raw :: rows =>
    ((Statement.ofLine raw).problem? size position).toList.map (⟨number, ·⟩) ++
      reports size (number + 1) ((Statement.ofLine raw).reach size position) rows

/-- The position behind lines that start at one. -/
def behind (size position : Nat) (rows : List (List Char)) : Nat :=
  rows.foldl (fun position raw => (Statement.ofLine raw).reach size position) position

section Reports

variable {number position : Nat} {rows : List (List Char)}

theorem behind_le (within : position ≤ size) : behind size position rows ≤ size := by
  induction rows generalizing position with
  | nil => exact within
  | cons raw rows ih => exact ih ((Statement.ofLine raw).reach_le within)

theorem reports_append (front back : List (List Char)) :
    reports size number position (front ++ back) = reports size number position front ++
      reports size (number + front.length) (behind size position front) back := by
  induction front generalizing number position with
  | nil => rfl
  | cons raw front ih =>
    rw [List.cons_append, reports, ih, reports, List.append_assoc, List.length_cons,
      Nat.add_assoc, Nat.add_comm 1]
    rfl

theorem line_of_mem_reports {report : Diagnostic}
    (member : report ∈ reports size number position rows) :
    number ≤ report.line ∧ report.line < number + rows.length := by
  induction rows generalizing number position with
  | nil => contradiction
  | cons raw rows ih =>
    rw [List.length_cons]
    rcases List.mem_append.mp member with own | later
    · obtain ⟨problem, _, rfl⟩ := List.mem_map.mp own
      exact ⟨Nat.le_refl _, Nat.lt_add_of_pos_right (Nat.succ_pos _)⟩
    · have bounds := ih later
      omega

/-- A line has at most one report, and later lines have later ones. -/
theorem pairwise_reports (number position : Nat) (rows : List (List Char)) :
    (reports size number position rows).Pairwise (·.line < ·.line) := by
  induction rows generalizing number position with
  | nil => exact .nil
  | cons raw rows ih =>
    refine List.pairwise_append.mpr ⟨?_, ih _ _, ?_⟩
    · cases (Statement.ofLine raw).problem? size position with
      | none => exact .nil
      | some problem => exact List.pairwise_singleton _ _
    · intro own member later member'
      obtain ⟨problem, _, rfl⟩ := List.mem_map.mp member
      exact (line_of_mem_reports member').1

/-- The reports with the number of a line are those that the line itself gives rise to. -/
theorem reports_on_line (before : List (List Char)) (raw : List Char) (after : List (List Char)) :
    ((reports size number position (before ++ raw :: after)).filter
        (·.line = number + before.length)).map (·.problem) =
      ((Statement.ofLine raw).problem? size (behind size position before)).toList := by
  have others {number' position' : Nat} {rows : List (List Char)}
      (other : number' + rows.length ≤ number + before.length ∨ number + before.length < number') :
      (reports size number' position' rows).filter (·.line = number + before.length) = [] := by
    rw [List.filter_eq_nil_iff]
    intro report member
    have bounds := line_of_mem_reports member
    simp only [decide_eq_true_eq]
    omega
  rw [reports_append, reports, List.filter_append, List.filter_append,
    others (.inl (Nat.le_refl _)), others (.inr (Nat.lt_succ_self _)), List.nil_append,
    List.append_nil]
  cases (Statement.ofLine raw).problem? size (behind size position before) with
  | none => rfl
  | some problem => simp

end Reports

namespace Progress

variable {progress : Progress size}

/-- The progress after further lines, which are numbered from one on. -/
def through (number : Nat) (rows : List (List Char)) (progress : Progress size) : Progress size :=
  (rows.zipIdx number).foldl (fun progress (line, number) => progress.line number line) progress

theorem line_ends (number : Nat) (raw : List Char) (progress : Progress size) :
    (progress.line number raw).diagnostics.toList = progress.diagnostics.toList ++
        (Load.ends (Load.statement (Statement.ofLine raw)) progress.draft).1.toList.map
          (⟨number, ·⟩) ∧
      (progress.line number raw).draft.position =
        (Load.ends (Load.statement (Statement.ofLine raw)) progress.draft).2 := by
  obtain ⟨draft, diagnostics, records⟩ := progress
  cases ended : Load.statement (Statement.ofLine raw) draft <;> simp [line, Load.ends, ended]

/-- Lines are reported apart from the memory that they are loaded into. -/
theorem through_reports (addressable : size ≤ 0xFFFF) (progress : Progress size)
    (within : progress.draft.position ≤ size) (number : Nat) (rows : List (List Char)) :
    (progress.through number rows).diagnostics.toList = progress.diagnostics.toList ++
        reports size number progress.draft.position rows ∧
      (progress.through number rows).draft.position =
        behind size progress.draft.position rows := by
  induction rows generalizing number progress with
  | nil => exact ⟨(List.append_nil _).symm, rfl⟩
  | cons raw rows ih =>
    obtain ⟨diagnostics, position⟩ := progress.line_ends number raw
    rw [Load.ends_statement addressable within] at diagnostics position
    have inside : (progress.line number raw).draft.position ≤ size :=
      position ▸ (Statement.ofLine raw).reach_le within
    obtain ⟨rest, reached⟩ := ih _ inside (number + 1)
    rw [diagnostics, position, List.append_assoc] at rest
    rw [position] at reached
    exact ⟨rest, reached⟩

/-- What a program is refused with. -/
def errors (progress : Progress size) : List Diagnostic :=
  match progress.result with
  | .ok _ => []
  | .error diagnostics => diagnostics

theorem errors_eq (progress : Progress size) : progress.errors = progress.diagnostics.toList := by
  unfold errors result
  cases none : progress.diagnostics.isEmpty with
  | true => simpa using none
  | false => rfl

theorem exists_result_iff : (∃ result, progress.result = .ok result) ↔ progress.errors = [] := by
  rw [errors_eq, result]
  by_cases none : progress.diagnostics = #[] <;> simp [none]

theorem result_of_errors (some : progress.errors ≠ []) :
    progress.result = .error progress.errors := by
  unfold errors at some ⊢
  cases ended : progress.result with
  | ok memory => exact absurd (by rw [ended]) some
  | error diagnostics => rfl

/-- The problems reported with the number of a line. -/
def reportsOn (progress : Progress size) (number : Nat) : List Problem :=
  (progress.errors.filter (·.line = number)).map (·.problem)

theorem errors_load (addressable : size ≤ 0xFFFF) (memory : Memory size) (text : List Char) :
    (load memory text).errors = reports size 1 0 (lines text) := by
  rw [errors_eq]
  exact (through_reports addressable (start memory) (Nat.zero_le _) 1 (lines text)).1

end Progress

/-- A line that is read as a label or as an instruction. -/
def Headed (line : List Char) : Prop :=
  [':'] <:+ line ∨ line.head?.any Char.isAlpha = true

/-- What may be reported on a line that follows others in a text. -/
structure Blamed (memory : Memory size) (before : List (List Char)) (raw : List Char)
    (reports : List Problem) : Prop where
  malformed : (∃ problem, Flawed size (trim (uncommented raw)) problem) ↔
    ¬ ∃ meaning, Means size (trim (uncommented raw)) meaning
  /-- A flaw is reported unless the room has run out in front of it. -/
  flawed : ∀ problem, Flawed size (trim (uncommented raw)) problem →
    reports = [problem] ∨ reports = [.noRoom size]
  /-- A label or an instruction with a flaw is reported as it is alone, and places nothing. -/
  headed : ∀ problem, Flawed size (trim (uncommented raw)) problem →
    Headed (trim (uncommented raw)) → reports = [problem] ∧
      (∀ initial : Memory size, (load initial raw).errors = [⟨1, problem⟩]) ∧
      ((Progress.start memory).through 1 (before ++ [raw])).draft.position =
        ((Progress.start memory).through 1 before).draft.position
  /-- A line without a flaw is reported if a byte of it is meant for the cell behind the last. -/
  flawless : ∀ meaning, Means size (trim (uncommented raw)) meaning → reports =
    if ∃ placement ∈ meaning.placements ((Progress.start memory).through 1 before).draft.position,
      placement.1 = size then [.noRoom size] else []
  blank : trim (uncommented raw) = [] → reports = []

theorem exists_mem_consecutive {position address : Nat} {values : List Byte} :
    (∃ placement ∈ consecutive position values, placement.1 = address) ↔
      position ≤ address ∧ address < position + values.length := by
  have addresses : (consecutive position values).map Prod.fst =
      List.range' position values.length :=
    List.map_fst_zip (by simp)
  rw [← List.mem_map, addresses, List.mem_range'_1]

namespace Statement

variable {statement : Statement} {raw : List Char} {problem : Problem} {position : Nat}

/-- A statement that means bytes places them, and one that means a position places none. -/
theorem meaning_cases {meaning : Meaning} (meant : statement.meaning? size = some meaning) :
    (meaning = .bytes statement.values ∧ ∀ position, statement.reach size position =
      min (position + statement.values.length) size) ∨
    ((∃ address, meaning = .position address) ∧ statement.values = []) := by
  cases statement with
  | blank =>
    cases meant
    exact .inl ⟨rfl, fun _ => rfl⟩
  | label address =>
    cases address with
    | error => contradiction
    | ok address =>
      simp only [meaning?, Option.ite_none_right_eq_some, Option.some.injEq] at meant
      exact .inr ⟨⟨address, meant.2.symm⟩, rfl⟩
  | instruction opcode operands =>
    cases operands with
    | error => contradiction
    | ok values =>
      cases meant
      exact .inl ⟨rfl, fun _ => rfl⟩
  | unknown => contradiction
  | bytes values flaw =>
    cases flaw with
    | some => contradiction
    | none =>
      cases meant
      exact .inl ⟨rfl, fun _ => rfl⟩

theorem placements_of_meaning {meaning : Meaning} (meant : statement.meaning? size = some meaning)
    (position : Nat) : meaning.placements position = consecutive position statement.values := by
  rcases meaning_cases meant with ⟨same, _⟩ | ⟨⟨address, same⟩, empty⟩
  · rw [same]
    rfl
  · rw [same, empty]
    rfl

theorem reach_of_bytes {row : List Byte} (meant : statement.meaning? size = some (.bytes row))
    (position : Nat) :
    statement.values = row ∧ statement.reach size position = min (position + row.length) size := by
  rcases meaning_cases meant with ⟨same, reach⟩ | ⟨⟨address, different⟩, _⟩
  · cases same
    exact ⟨rfl, reach position⟩
  · contradiction

theorem ofLine_headed (headed : Headed (trim (uncommented raw))) (values : List Byte)
    (flaw : Option Problem) : ofLine raw ≠ .bytes values flaw := by
  simp only [ofLine]
  split
  · rintro ⟨⟩
  · split
    · rintro ⟨⟩
    · rename_i unlabelled
      split
      · simp only [ofInstruction]
        split <;> rintro ⟨⟩
      · rename_i unlettered
        rcases headed with ⟨text, labelled⟩ | lettered
        · rw [← labelled, List.getLast?_concat] at unlabelled
          exact absurd rfl unlabelled
        · exact absurd lettered unlettered

/-- A flaw keeps a statement from placing anything, unless it is in the middle of bytes. -/
theorem problem?_of_headed (flawed : statement.flaw? size = some problem)
    (whole : ∀ values flaw, statement ≠ .bytes values flaw) (within : position ≤ size) :
    statement.problem? size position = some problem ∧ statement.reach size position = position := by
  have idle (empty : statement.values = []) : statement.problem? size position = some problem ∧
      min (position + statement.values.length) size = position := by
    rw [problem?, empty, List.length_nil, Nat.add_zero, if_pos within, Nat.min_eq_left within]
    exact ⟨flawed, rfl⟩
  cases statement with
  | label address =>
    cases address with
    | error => exact idle rfl
    | ok address =>
      simp only [flaw?, Option.ite_none_left_eq_some] at flawed
      exact ⟨(idle rfl).1, if_neg flawed.1⟩
  | instruction opcode operands =>
    cases operands with
    | error => exact idle rfl
    | ok values => contradiction
  | unknown => exact idle rfl
  | bytes values flaw => exact absurd rfl (whole values flaw)
  | blank => contradiction

end Statement

section Line

variable {raw : List Char} {position : Nat}

theorem problem?_of_flawed {problem : Problem}
    (flawed : Flawed size (trim (uncommented raw)) problem) :
    (Statement.ofLine raw).problem? size position = some problem ∨
      (Statement.ofLine raw).problem? size position = some (.noRoom size) := by
  unfold Statement.problem?
  split
  · exact .inl (flawed_iff.mp flawed)
  · exact .inr rfl

theorem problem?_of_means (within : position ≤ size) {meaning : Meaning}
    (means : Means size (trim (uncommented raw)) meaning) :
    ((Statement.ofLine raw).problem? size position).toList =
      if ∃ placement ∈ meaning.placements position, placement.1 = size then [.noRoom size]
      else [] := by
  have meant := means_iff.mp means
  simp only [Statement.placements_of_meaning meant, exists_mem_consecutive, within, true_and,
    Statement.problem?, (Statement.flaw?_eq_none_iff _).mpr ⟨meaning, meant⟩]
  split
  · rename_i room
    rw [if_neg (Nat.not_lt.mpr room)]
    rfl
  · rename_i full
    rw [if_pos (Nat.lt_of_not_le full)]
    rfl

end Line

theorem blamed (addressable : size ≤ 0xFFFF) (memory : Memory size) (before : List (List Char))
    {raw : List Char} (single : '\n' ∉ raw) :
    Blamed memory before raw
      ((Statement.ofLine raw).problem? size (behind size 0 before)).toList := by
  have reached (rows : List (List Char)) :
      ((Progress.start memory).through 1 rows).draft.position = behind size 0 rows :=
    (Progress.through_reports addressable (.start memory) (Nat.zero_le _) 1 rows).2
  have within : behind size 0 before ≤ size := behind_le (Nat.zero_le _)
  constructor
  case malformed => exact flawed_iff_meaningless
  case flawed =>
    intro problem flawed
    exact (problem?_of_flawed flawed).imp (congrArg Option.toList) (congrArg Option.toList)
  case headed =>
    intro problem flawed headed
    have nonempty : raw ≠ [] := by
      rintro rfl
      exact not_flawed_nil flawed
    have flaw := flawed_iff.mp flawed
    have whole := Statement.ofLine_headed headed
    obtain ⟨reported, stays⟩ := Statement.problem?_of_headed flaw whole within
    refine ⟨congrArg Option.toList reported, fun initial => ?_, ?_⟩
    · obtain ⟨alone, _⟩ := Statement.problem?_of_headed flaw whole (Nat.zero_le size)
      rw [Progress.errors_load addressable, lines_eq_singleton nonempty single, reports, alone]
      rfl
    · rw [reached, reached, behind, List.foldl_append]
      exact stays
  case flawless =>
    intro meaning means
    rw [reached]
    exact problem?_of_means within means
  case blank =>
    intro blank
    have means : Means size (trim (uncommented raw)) (.bytes []) := blank ▸ Means.blank
    exact (problem?_of_means within means).trans (if_neg fun ⟨_, member, _⟩ => nomatch member)

/-- Every malformed line is reported once, whatever surrounds it, and other lines only where they
find no room. The error records are the reports in their order, and a program loads if there are
none. -/
theorem malformed_lines_reported_once (addressable : size ≤ 0xFFFF) (memory : Memory size)
    (text : List Char) :
    let loaded := load memory text
    loaded.errors.Pairwise (·.line < ·.line) ∧
      (∀ error ∈ loaded.errors, 1 ≤ error.line ∧ error.line ≤ (lines text).length) ∧
      (∀ before raw after, lines text = before ++ raw :: after →
        Blamed memory before raw (loaded.reportsOn (before.length + 1))) ∧
      loaded.errorRecords = loaded.errors.map (fun error => Progress.record .error error.text) ∧
      ((∃ result, loaded.result = .ok result) ↔ loaded.errors = []) := by
  intro loaded
  have errors : loaded.errors = reports size 1 0 (lines text) :=
    Progress.errors_load addressable memory text
  refine ⟨?_, ?_, ?_, ?_, ?_⟩
  · rw [errors]
    exact pairwise_reports 1 0 _
  · intro error member
    rw [errors] at member
    have bounds := line_of_mem_reports member
    omega
  · intro before raw after split
    have listed : raw ∈ lines text := by simp [split]
    have single := newline_not_mem_of_mem_lines listed
    have own : loaded.reportsOn (before.length + 1) =
        ((Statement.ofLine raw).problem? size (behind size 0 before)).toList := by
      rw [Progress.reportsOn, errors, split, Nat.add_comm]
      exact reports_on_line before raw after
    rw [own]
    exact blamed addressable memory before single
  · rw [Progress.errors_eq]
    exact (load_reported memory text).errors
  · exact Progress.exists_result_iff

/-- More bytes than cells, between lines with flaws. The last of these has no room for its first
byte either. -/
theorem malformed_lines_of_short_memory :
    let loaded := load (.zeros : Memory 4) "x:\n1 2 3 4 5\nFOO # 6\n7 zz".toList
    loaded.errors.Pairwise (·.line < ·.line) ∧ loaded.reportsOn 1 = [.labelNumber .decimal] ∧
      loaded.reportsOn 2 = [.noRoom 4] ∧ loaded.reportsOn 3 = [.unknownMnemonic "FOO"] ∧
      (loaded.reportsOn 4).length = 1 := by
  intro loaded
  obtain ⟨sorted, _, own, _, _⟩ := malformed_lines_reported_once (by decide) (.zeros : Memory 4)
    "x:\n1 2 3 4 5\nFOO # 6\n7 zz".toList
  refine ⟨sorted, ?_, ?_, ?_, ?_⟩
  · have flawed : Flawed 4 (trim (uncommented "x:".toList)) (.labelNumber .decimal) :=
      flawed_iff.mpr (by decide)
    exact ((own [] _ _ rfl).headed _ flawed (.inl ⟨['x'], by decide⟩)).1
  · have means : Means 4 (trim (uncommented "1 2 3 4 5".toList)) (.bytes [1, 2, 3, 4, 5]) :=
      means_iff.mpr (by decide)
    exact ((own ["x:".toList] _ _ rfl).flawless _ means).trans (by decide)
  · have flawed : Flawed 4 (trim (uncommented "FOO # 6".toList)) (.unknownMnemonic "FOO") :=
      flawed_iff.mpr (by decide)
    exact ((own ["x:".toList, "1 2 3 4 5".toList] _ _ rfl).headed _ flawed (.inr (by decide))).1
  · have flawed : Flawed 4 (trim (uncommented "7 zz".toList)) (.invalidByte .decimal "zz") :=
      flawed_iff.mpr (by decide)
    have reported :=
      (own ["x:".toList, "1 2 3 4 5".toList, "FOO # 6".toList] _ _ rfl).flawed _ flawed
    rcases reported with single | single
    · exact congrArg List.length single
    · exact congrArg List.length single

end ByteMachine.Source
