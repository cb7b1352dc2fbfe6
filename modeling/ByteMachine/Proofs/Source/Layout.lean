import ByteMachine.Proofs.Source.Composition
import ByteMachine.Proofs.Source.Exchange

/-! The layout of a program text, which does not matter. A line is read by the words of its code:
the last character of the last word tells a label, and the first one of the first word an
instruction. What keeps the words, but for the case of the letters in a mnemonic, keeps what the
line does. -/
namespace ByteMachine.Source

open Text

variable {size : Nat}

/-- A problem without the words in which its report quotes the line. -/
def Problem.kind : Problem → Problem
  | unknownMnemonic _ => unknownMnemonic ""
  | operandCount expected found _ => operandCount expected found ""
  | problem => problem

/-- One change to the layout of a line. A carriage return in front of the newline is a blank behind
the line. -/
inductive Restyle : List Char → List Char → Prop where
  | leading {gap} (line) (blank : Gap gap) : Restyle line (gap ++ line)
  | trailing {gap} (line) (blank : Gap gap) : Restyle line (line ++ gap)
  | comment {remark} (line) (single : '\n' ∉ remark) : Restyle line (line ++ '#' :: remark)
  | between {front gap gap' back} (code : '#' ∉ front)
      (unlabelled : ¬ [':'] <:+ trim (uncommented (front ++ gap ++ back)))
      (apart : gap ≠ []) (blank : Gap gap) (apart' : gap' ≠ []) (blank' : Gap gap') :
      Restyle (front ++ gap ++ back) (front ++ gap' ++ back)
  | beforeColon {front gap gap' back} (code : '#' ∉ front) (last : trim (uncommented back) = [])
      (blank : Gap gap) (blank' : Gap gap') :
      Restyle (front ++ gap ++ ':' :: back) (front ++ gap' ++ ':' :: back)
  | letters {front name name' back} (indented : Gap front)
      (lettered : name.head?.any Char.isAlpha = true)
      (solid : ∀ c ∈ name, isBlank c = false ∧ c ≠ '#')
      (unlabelled : ¬ [':'] <:+ trim (uncommented (front ++ name ++ back)))
      (same : name'.map Char.toUpper = name.map Char.toUpper) :
      Restyle (front ++ name ++ back) (front ++ name' ++ back)

/-- Lines among which others without any code have come, with the number of those that have come in
front of each. -/
inductive Padded : List (List Char) → List (List Char) → List Nat → Prop where
  | tail {blanks} (idle : ∀ raw ∈ blanks, trim (uncommented raw) = []) : Padded [] blanks []
  | line {raw rows rows' blanks inserted} (idle : ∀ raw ∈ blanks, trim (uncommented raw) = [])
      (rest : Padded rows rows' inserted) :
      Padded (raw :: rows) (blanks ++ raw :: rows') (blanks.length :: inserted)

section Case

variable {name name' : List Char} {test : Char → Bool} {c : Char}

/-- A test that all letters answer alike does not tell a small letter from the capital one. -/
theorem test_toUpper {answer : Bool} (letters : ∀ c, c.isAlpha = true → test c = answer) :
    test c.toUpper = test c := by
  obtain same | ⟨letter, capital, _⟩ := toUpper_cases c
  · rw [same]
  · rw [letters _ letter, letters _ capital]

theorem isBlank_toUpper : isBlank c.toUpper = isBlank c :=
  test_toUpper fun _ => isBlank_of_isAlpha

theorem beq_toUpper {mark : Char} (sign : mark.isAlpha = false) :
    (c.toUpper == mark) = (c == mark) := by
  have letters : ∀ c : Char, c.isAlpha = true → (c == mark) = false := by
    intro c letter
    apply beq_eq_false_iff_ne.mpr
    rintro rfl
    exact Bool.noConfusion (letter.symm.trans sign)
  exact test_toUpper letters

theorem map_test_of_same (blind : ∀ {c}, test c.toUpper = test c)
    (same : name'.map Char.toUpper = name.map Char.toUpper) : name'.map test = name.map test := by
  have capitals (name : List Char) : (name.map Char.toUpper).map test = name.map test := by
    rw [List.map_map]
    exact List.map_congr_left fun c _ => blind
  rw [← capitals, same, capitals]

theorem solid_of_same (solid : ∀ c ∈ name, isBlank c = false ∧ c ≠ '#')
    (same : name'.map Char.toUpper = name.map Char.toUpper) :
    ∀ c ∈ name', isBlank c = false ∧ c ≠ '#' := by
  have passes (name : List Char) : (∀ c ∈ name, isBlank c = false ∧ c ≠ '#') ↔
      (∀ b ∈ name.map isBlank, b = false) ∧ ∀ b ∈ name.map (· == '#'), b = false := by
    simp only [List.forall_mem_map, beq_eq_false_iff_ne, ← forall_and]
  have hash : name'.map (· == '#') = name.map (· == '#') := map_test_of_same (beq_toUpper rfl) same
  rwa [passes, map_test_of_same isBlank_toUpper same, hash, ← passes]

theorem head_isAlpha_of_same (same : name'.map Char.toUpper = name.map Char.toUpper) :
    name'.head?.any Char.isAlpha = name.head?.any Char.isAlpha := by
  have first (name : List Char) :
      name.head?.any Char.isAlpha = (name.map Char.isAlpha).head?.any id := by
    rw [List.head?_map, Option.any_map]
    rfl
  have tests := map_test_of_same (test_toUpper fun _ => id) same
  rw [first, tests, ← first]

theorem getLast_colon_of_same (same : name'.map Char.toUpper = name.map Char.toUpper) :
    name'.getLast? = some ':' ↔ name.getLast? = some ':' := by
  have last (name : List Char) :
      name.getLast? = some ':' ↔ (name.map (· == ':')).getLast? = some true := by
    simp
  have tests : name'.map (· == ':') = name.map (· == ':') := map_test_of_same (beq_toUpper rfl) same
  rw [last, tests, ← last]

theorem ofName?_of_same (same : name'.map Char.toUpper = name.map Char.toUpper) :
    Opcode.ofName? name' = Opcode.ofName? name := by
  rw [Opcode.ofName?, same, Opcode.ofName?]

end Case

section Code

variable {raw raw' front back : List Char}

theorem Alike.of_code {κ : Type} {view : Problem → κ}
    (same : trim (uncommented raw') = trim (uncommented raw)) : Alike size view raw raw' :=
  .of_eq (by rw [Statement.ofLine, same, Statement.ofLine])

/-- Only blanks and a comment stand behind the colon of a label. -/
theorem ofLine_label (code : '#' ∉ front) (last : trim (uncommented back) = []) :
    Statement.ofLine (front ++ ':' :: back) = .label (Statement.readLabel (trim front)) := by
  have blank : ∀ c ∈ uncommented back, isBlank c = true := by
    obtain ⟨left, right, split, left_blank, right_blank⟩ := exists_eq_trim (uncommented back)
    rw [split, last, List.append_nil]
    exact List.forall_mem_append.mpr ⟨left_blank, right_blank⟩
  have indent : ∀ c ∈ front.takeWhile isBlank, isBlank c = true :=
    fun _ member => List.mem_takeWhile_imp member
  have first : ∀ c ∈ (front.dropWhile isBlank ++ [':']).head?, isBlank c = false := by
    have kept := List.head?_dropWhile_not isBlank front
    cases rest : front.dropWhile isBlank with
    | nil => simp [isBlank]
    | cons c rest =>
      rw [rest] at kept
      simpa using kept
  have stripped : trim (uncommented (front ++ ':' :: back)) = front.dropWhile isBlank ++ [':'] :=
    calc trim (uncommented (front ++ ':' :: back))
        = trim (front.takeWhile isBlank ++ (front.dropWhile isBlank ++ [':']) ++
            uncommented back) := by
          rw [uncommented_append code, ← List.append_assoc, List.takeWhile_append_dropWhile,
            List.append_assoc]
          rfl
      _ = trim (front.dropWhile isBlank ++ [':']) := trim_append_blanks _ indent blank
      _ = front.dropWhile isBlank ++ [':'] := trim_eq_self first (by simp [isBlank])
  have trimmed : trim (front.dropWhile isBlank) = trim front := by
    rw [← trim_append_blanks _ indent (List.forall_mem_nil _), List.takeWhile_append_dropWhile,
      List.append_nil]
  rw [Statement.ofLine, stripped]
  simp [trimmed]

theorem ofLine_unlabelled (unlabelled : ¬ [':'] <:+ trim (uncommented raw))
    (nonempty : trim (uncommented raw) ≠ []) :
    Statement.ofLine raw = if (trim (uncommented raw)).head?.any Char.isAlpha then
      Statement.ofInstruction (trim (uncommented raw))
    else Statement.ofBytes (trim (uncommented raw)) := by
  have other : (trim (uncommented raw)).getLast? ≠ some ':' := fun last =>
    unlabelled ⟨_, List.dropLast_append_getLast? _ last⟩
  rw [Statement.ofLine, if_neg (by simpa using nonempty), if_neg other]

theorem ofLine_lettered (unlabelled : ¬ [':'] <:+ trim (uncommented raw))
    (lettered : (trim (uncommented raw)).head?.any Char.isAlpha = true) :
    Statement.ofLine raw = Statement.ofInstruction (trim (uncommented raw)) := by
  have nonempty : trim (uncommented raw) ≠ [] := by
    intro empty
    rw [empty] at lettered
    contradiction
  rw [ofLine_unlabelled unlabelled nonempty, if_pos lettered]

end Code

theorem readOperands_kind (opcode : Opcode) (line line' : List Char) (tokens : List (List Char)) :
    (Statement.readOperands opcode line' tokens).mapError Problem.kind =
      (Statement.readOperands opcode line tokens).mapError Problem.kind := by
  simp only [Statement.readOperands]
  cases tokens.mapM Statement.readByte with
  | error problem => rfl
  | ok values =>
    change Except.mapError _ (if _ then _ else _) = Except.mapError _ (if _ then _ else _)
    split <;> rfl

theorem outcome_instruction (opcode : Opcode) {operands operands' : Except Problem (List Byte)}
    (kinds : operands'.mapError Problem.kind = operands.mapError Problem.kind)
    (draft : Draft size) :
    Prod.map (Option.map Problem.kind) id
        ((Load.statement (.instruction opcode operands')).outcome draft) =
      Prod.map (Option.map Problem.kind) id
        ((Load.statement (.instruction opcode operands)).outcome draft) := by
  cases operands with
  | ok values =>
    cases operands' with
    | ok values' =>
      cases kinds
      rfl
    | error problem' => cases kinds
  | error problem =>
    cases operands' with
    | ok values' => cases kinds
    | error problem' => exact Prod.ext (congrArg some (Except.error.inj kinds)) rfl

section Alike

variable {raw raw' name name' : List Char} {tokens : List (List Char)}

/-- Instructions are alike if their words are the same, with the letters of the first one large or
small. -/
theorem Alike.of_lettered (unlabelled : ¬ [':'] <:+ trim (uncommented raw))
    (lettered : (trim (uncommented raw)).head?.any Char.isAlpha = true)
    (split : words (uncommented raw) = name :: tokens)
    (split' : words (uncommented raw') = name' :: tokens)
    (same : name'.map Char.toUpper = name.map Char.toUpper) : Alike size Problem.kind raw raw' := by
  have whole : (words (uncommented raw')).flatten.map Char.toUpper =
      (words (uncommented raw)).flatten.map Char.toUpper := by
    rw [split, split', List.flatten_cons, List.flatten_cons, List.map_append, List.map_append, same]
  have unlabelled' : ¬ [':'] <:+ trim (uncommented raw') := by
    rwa [suffix_trim_iff, getLast_colon_of_same whole, ← suffix_trim_iff]
  have lettered' : (trim (uncommented raw')).head?.any Char.isAlpha = true := by
    rwa [head?_trim, head_isAlpha_of_same whole, ← head?_trim]
  intro draft
  rw [Draft.line, Draft.line, ofLine_lettered unlabelled lettered,
    ofLine_lettered unlabelled' lettered']
  simp only [Statement.ofInstruction, words_trim, split, split', List.headD_cons, List.tail_cons,
    ofName?_of_same same]
  cases Opcode.ofName? name with
  | none => rfl
  | some opcode => exact outcome_instruction opcode (readOperands_kind opcode _ _ tokens) draft

/-- Unless it is a label, a line does what its words say. -/
theorem Alike.of_words (unlabelled : ¬ [':'] <:+ trim (uncommented raw))
    (same : words (uncommented raw') = words (uncommented raw)) :
    Alike size Problem.kind raw raw' := by
  by_cases empty : trim (uncommented raw) = []
  · refine .of_code ?_
    rw [empty, trim_eq_nil_iff, same, ← trim_eq_nil_iff, empty]
  by_cases lettered : (trim (uncommented raw)).head?.any Char.isAlpha = true
  · obtain ⟨name, tokens, split⟩ := words_of_lettered lettered
    rw [words_trim] at split
    exact .of_lettered unlabelled lettered split (same.trans split) rfl
  · have unlabelled' : ¬ [':'] <:+ trim (uncommented raw') := by
      rwa [suffix_trim_iff, same, ← suffix_trim_iff]
    have nonempty' : trim (uncommented raw') ≠ [] := by
      rwa [ne_eq, trim_eq_nil_iff, same, ← trim_eq_nil_iff]
    have unlettered' : ¬ (trim (uncommented raw')).head?.any Char.isAlpha = true := by
      rwa [head?_trim, same, ← head?_trim]
    refine .of_eq ?_
    rw [ofLine_unlabelled unlabelled empty, ofLine_unlabelled unlabelled' nonempty',
      if_neg lettered, if_neg unlettered', Statement.ofBytes, words_trim, same, Statement.ofBytes,
      words_trim]

end Alike

theorem Restyle.alike {raw raw' : List Char} (restyle : Restyle raw raw') :
    Alike size Problem.kind raw raw' := by
  cases restyle with
  | @leading gap line blank =>
    refine .of_code ?_
    have trimmed := trim_append_blanks (uncommented raw) blank.isBlank (List.forall_mem_nil _)
    rwa [List.append_nil, ← uncommented_append blank.code] at trimmed
  | @trailing gap line blank =>
    refine .of_code ?_
    by_cases marked : '#' ∈ raw
    · rw [uncommented_append_of_mem marked]
    · rw [uncommented_append marked, uncommented_eq_self blank.code, uncommented_eq_self marked]
      exact trim_append_blanks raw (List.forall_mem_nil _) blank.isBlank
  | comment =>
    refine .of_code ?_
    by_cases marked : '#' ∈ raw
    · rw [uncommented_append_of_mem marked]
    · rw [uncommented_append_comment _ marked, uncommented_eq_self marked]
  | @between front gap gap' back code unlabelled apart blank apart' blank' =>
    have split {gap : List Char} (apart : gap ≠ []) (blank : Gap gap) :
        words (uncommented (front ++ gap ++ back)) = words front ++ words (uncommented back) := by
      rw [List.append_assoc, uncommented_append code, uncommented_append blank.code,
        ← List.append_assoc, words_append_blanks_append apart blank.isBlank]
    exact .of_words unlabelled ((split apart' blank').trans (split apart blank).symm)
  | @beforeColon front gap gap' back code last blank blank' =>
    have label {gap : List Char} (blank : Gap gap) :
        Statement.ofLine (front ++ gap ++ ':' :: back) =
          .label (Statement.readLabel (trim front)) := by
      rw [ofLine_label (by simp [code, blank.code]) last]
      exact congrArg _ (congrArg _ (trim_append_blanks front (List.forall_mem_nil _) blank.isBlank))
    exact .of_eq ((label blank').trans (label blank).symm)
  | @letters front name name' back indented lettered solid unlabelled same =>
    obtain ⟨word, tokens, first⟩ := exists_words_append (uncommented back)
    have split {name : List Char} (nonempty : name ≠ [])
        (solid : ∀ c ∈ name, isBlank c = false ∧ c ≠ '#') :
        words (uncommented (front ++ name ++ back)) = (name ++ word) :: tokens := by
      have code : '#' ∉ name := fun member => (solid '#' member).2 rfl
      rw [List.append_assoc, uncommented_append indented.code, uncommented_append code,
        words_blanks_append indented.isBlank, first nonempty fun c member => (solid c member).1]
    have nonempty : name ≠ [] := by
      rintro rfl
      contradiction
    have nonempty' : name' ≠ [] := by
      rintro rfl
      exact nonempty (List.map_eq_nil_iff.mp same.symm)
    refine .of_lettered unlabelled ?_ (split nonempty solid)
      (split nonempty' (solid_of_same solid same)) ?_
    · rw [head?_trim, split nonempty solid, List.flatten_cons, List.append_assoc,
        List.head?_append_of_ne_nil _ nonempty]
      exact lettered
    · rw [List.map_append, List.map_append, same]

/-- Any number of changes to a line are one after another. -/
theorem alike_of_restyled {raw raw' : List Char}
    (restyled : Relation.ReflTransGen Restyle raw raw') :
    Alike size Problem.kind raw raw' := by
  induction restyled with
  | refl => exact .of_eq rfl
  | tail _ restyle ih => exact ih.trans restyle.alike

namespace Draft

theorem through_append (draft : Draft size) (rows rows' : List (List Char)) :
    draft.through (rows ++ rows') = (draft.through rows).through rows' :=
  List.foldl_append

theorem reports_append (draft : Draft size) (rows rows' : List (List Char)) :
    draft.reports (rows ++ rows') = draft.reports rows ++
      ((draft.through rows).reports rows').map (·.raised rows.length) := by
  induction rows generalizing draft with
  | nil => exact (List.map_id _).symm
  | cons raw rows ih =>
    simp only [List.cons_append, reports, ih, List.map_append, List.map_map, Function.comp_def,
      Diagnostic.raised_raised, List.append_assoc]
    rfl

/-- Lines without code do nothing. -/
theorem reports_idle (draft : Draft size) {blanks : List (List Char)}
    (idle : ∀ raw ∈ blanks, trim (uncommented raw) = []) :
    draft.through blanks = draft ∧ draft.reports blanks = [] := by
  induction blanks with
  | nil => exact ⟨rfl, rfl⟩
  | cons raw blanks ih =>
    obtain ⟨first, rest⟩ := List.forall_mem_cons.mp idle
    obtain ⟨left, reported⟩ := ih rest
    have nothing : draft.line raw = (none, draft) := by
      rw [line, ofLine_of_blank first]
      rfl
    constructor
    · change (draft.line raw).2.through blanks = draft
      rw [nothing, left]
    · rw [reports, nothing, reported]
      rfl

/-- Lines that do nothing move the reports of the others. -/
theorem reports_padded {rows rows' : List (List Char)} {inserted : List Nat}
    (padded : Padded rows rows' inserted) (draft : Draft size) :
    draft.through rows' = draft.through rows ∧
      draft.reports rows' =
        (draft.reports rows).map fun report => report.raised (inserted.take report.line).sum := by
  induction padded generalizing draft with
  | tail idle => exact draft.reports_idle idle
  | @line raw rows rows' blanks inserted idle _ ih =>
    obtain ⟨left, reported⟩ := draft.reports_idle idle
    obtain ⟨leftBehind, reportedBehind⟩ := ih (draft.line raw).2
    constructor
    · rw [through_append, left]
      exact leftBehind
    · have before (line : Nat) : ((blanks.length :: inserted).take (line + 1)).sum =
          (inserted.take line).sum + blanks.length := by
        rw [List.take_succ_cons, List.sum_cons, Nat.add_comm]
      have later (report : Diagnostic) :
          ((report.raised (inserted.take report.line).sum).raised 1).raised blanks.length =
            (report.raised 1).raised
              ((blanks.length :: inserted).take (report.raised 1).line).sum := by
        rw [show (report.raised 1).line = report.line + 1 from rfl, before,
          Diagnostic.raised_raised, Diagnostic.raised_raised, Diagnostic.raised_raised]
        congr 1
        omega
      have here (problem : Problem) : (⟨1, problem⟩ : Diagnostic).raised blanks.length =
          (⟨1, problem⟩ : Diagnostic).raised ((blanks.length :: inserted).take 1).sum := by
        rw [before 0, List.take_zero, List.sum_nil, Nat.zero_add]
      rw [reports_append, left, reported, List.nil_append, reports, reports, reportedBehind]
      simp only [List.map_append, List.map_map, Function.comp_def, later, here]

end Draft

/-- How a text is laid out has no influence on what it is loaded as. Changes within lines leave the
memory or the problems of each line, apart from the words quoted; further lines without code, empty
or with a comment alone, leave the memory or all problems, with these lines counted. -/
theorem layout_is_irrelevant (memory : Memory size) {text text' : List Char} :
    (List.Forall₂ (Relation.ReflTransGen Restyle) (lines text) (lines text') →
      (∀ result, (load memory text').result = .ok result ↔ (load memory text).result = .ok result) ∧
        (load memory text').errors.map (·.outline Problem.kind) =
          (load memory text).errors.map (·.outline Problem.kind)) ∧
    ∀ inserted, Padded (lines text) (lines text') inserted →
      (∀ result, (load memory text').result = .ok result ↔ (load memory text).result = .ok result) ∧
        (load memory text').errors = (load memory text).errors.map fun report =>
          report.raised (inserted.take report.line).sum := by
  have results (left : (load memory text').draft = (load memory text).draft)
      (flawless : (load memory text').errors = [] ↔ (load memory text).errors = []) (result) :
      (load memory text').result = .ok result ↔ (load memory text).result = .ok result := by
    rw [Progress.result_eq_ok_iff, Progress.result_eq_ok_iff, left, flawless]
  obtain ⟨left, reported⟩ := load_reports memory text
  obtain ⟨left', reported'⟩ := load_reports memory text'
  refine ⟨fun restyled => ?_, fun inserted padded => ?_⟩
  · obtain ⟨same, outlines⟩ :=
      Draft.through_alike (restyled.imp fun _ _ => alike_of_restyled) ⟨memory, 0⟩
    rw [← reported, ← reported'] at outlines
    refine ⟨results (left'.trans (same.trans left.symm)) ?_, outlines⟩
    rw [← List.map_eq_nil_iff, outlines, List.map_eq_nil_iff]
  · obtain ⟨same, renumbered⟩ := Draft.reports_padded padded ⟨memory, 0⟩
    rw [← reported, ← reported'] at renumbered
    refine ⟨results (left'.trans (same.trans left.symm)) ?_, renumbered⟩
    rw [renumbered, List.map_eq_nil_iff]

/-- A program with a mistake in its last line, as it stands, with changes in every line and among
further lines. -/
theorem mistake_laid_out :
    (load (.zeros : Memory 4) "0x1:\nHLT\nFOO 7".toList).errors = [⟨3, .unknownMnemonic "FOO"⟩] ∧
      (load (.zeros : Memory 4) "\u00a00x1\u3000: # start:\r\nHlt\r\nfoo \t7".toList).errors.map
        (·.outline Problem.kind) = [(3, .unknownMnemonic "")] ∧
      (load (.zeros : Memory 4) "# start\n0x1:\nHLT\n\n\t#:\nFOO 7\n\n".toList).errors =
        [⟨6, .unknownMnemonic "FOO"⟩] := by
  have mistake : (load (.zeros : Memory 4) "0x1:\nHLT\nFOO 7".toList).errors =
      [⟨3, .unknownMnemonic "FOO"⟩] := by decide +kernel
  have gap {c : Char} (blank : isBlank c = true) (inline : c ≠ '\n') : Gap [c] :=
    List.forall_mem_singleton.mpr ⟨blank, inline⟩
  have carriage : Gap ['\r'] := gap rfl (by decide)
  have none : Gap [] := List.forall_mem_nil _
  have space : Gap [' '] := gap rfl (by decide)
  have wide : Gap [' ', '\t'] := List.forall_mem_append.mpr ⟨space, gap rfl (by decide)⟩
  have label : Relation.ReflTransGen Restyle "0x1:".toList
      "\u00a00x1\u3000: # start:\r".toList := by
    have colon := @Restyle.beforeColon "0x1".toList [] ['\u3000'] [] (by decide) rfl none
      (gap rfl (by decide))
    have indent := @Restyle.leading ['\u00a0'] ("0x1".toList ++ ['\u3000'] ++ [':'])
      (gap rfl (by decide))
    have comment := @Restyle.comment " start:".toList "\u00a00x1\u3000: ".toList (by decide)
    exact ((((Relation.ReflTransGen.single colon).tail indent).tail (.trailing _ space)).tail
      comment).tail (.trailing _ carriage)
  have halt : Relation.ReflTransGen Restyle "HLT".toList "Hlt\r".toList := by
    have letters := @Restyle.letters [] "HLT".toList "Hlt".toList [] none rfl
      (by simp [isBlank]) (by decide +kernel) rfl
    exact (Relation.ReflTransGen.single letters).tail (.trailing _ carriage)
  have unknown : Relation.ReflTransGen Restyle "FOO 7".toList "foo \t7".toList := by
    have letters := @Restyle.letters [] "FOO".toList "foo".toList " 7".toList none rfl
      (by simp [isBlank]) (by decide +kernel) rfl
    have between := @Restyle.between "foo".toList [' '] [' ', '\t'] "7".toList (by decide)
      (by decide +kernel) (List.cons_ne_nil _ _) space (List.cons_ne_nil _ _) wide
    exact (Relation.ReflTransGen.single letters).tail between
  have padded : Padded ["0x1:".toList, "HLT".toList, "FOO 7".toList]
      ["# start".toList, "0x1:".toList, "HLT".toList, [], "\t#:".toList, "FOO 7".toList, []]
      [1, 0, 2] :=
    @Padded.line _ _ _ ["# start".toList] _ (by decide) (@Padded.line _ _ _ [] _ (by decide)
      (@Padded.line _ _ _ [[], "\t#:".toList] _ (by decide) (@Padded.tail [[]] (by decide))))
  refine ⟨mistake, ?_, ?_⟩
  · have layout := @layout_is_irrelevant 4 .zeros "0x1:\nHLT\nFOO 7".toList
      "\u00a00x1\u3000: # start:\r\nHlt\r\nfoo \t7".toList
    obtain ⟨-, outlines⟩ := layout.1 (.cons label (.cons halt (.cons unknown .nil)))
    rw [outlines, mistake]
    rfl
  · have layout := @layout_is_irrelevant 4 .zeros "0x1:\nHLT\nFOO 7".toList
      "# start\n0x1:\nHLT\n\n\t#:\nFOO 7\n\n".toList
    obtain ⟨-, renumbered⟩ := layout.2 _ padded
    rw [renumbered, mistake]
    rfl

end ByteMachine.Source
