import ByteMachine.Text.Layout
import Mathlib.Data.List.DropRight

/-! What the blanks of a text leave alone. The words are all that is solid in it, so blanks can come
and go at its ends and between its words, and the first and the last character of a line without
the blanks around it are those of its words. -/
namespace ByteMachine.Text

variable {text : List Char}

theorem words_blanks_append {blanks : List Char} (blank : ∀ c ∈ blanks, isBlank c = true)
    (text : List Char) : words (blanks ++ text) = words text := by
  induction blanks with
  | nil => rfl
  | cons c blanks ih =>
    obtain ⟨first, rest⟩ := List.forall_mem_cons.mp blank
    exact (words_append_blank first [] (blanks ++ text)).trans (ih rest)

/-- Blanks, one or more, keep words apart. -/
theorem words_append_blanks_append {blanks : List Char} (apart : blanks ≠ [])
    (blank : ∀ c ∈ blanks, isBlank c = true) (left right : List Char) :
    words (left ++ blanks ++ right) = words left ++ words right := by
  obtain ⟨c, blanks, rfl⟩ := List.exists_cons_of_ne_nil apart
  obtain ⟨first, rest⟩ := List.forall_mem_cons.mp blank
  rw [List.append_assoc, List.cons_append, words_append_blank first, words_blanks_append rest]

theorem words_append_blanks {blanks : List Char} (blank : ∀ c ∈ blanks, isBlank c = true)
    (text : List Char) : words (text ++ blanks) = words text := by
  by_cases none : blanks = []
  · rw [none, List.append_nil]
  · have apart := words_append_blanks_append none blank text []
    rwa [List.append_nil, show words [] = [] from rfl, List.append_nil] at apart

theorem words_intercalate_cons {piece : List Char} (nonempty : piece ≠ [])
    (solid : ∀ c ∈ piece, isBlank c = false) (pieces : List (List Char)) :
    words ([' '].intercalate (piece :: pieces)) = piece :: words ([' '].intercalate pieces) := by
  have single := words_singleton nonempty solid
  cases pieces with
  | nil => rwa [List.intercalate_singleton]
  | cons second pieces =>
    rw [List.intercalate_cons_cons, List.append_assoc, List.singleton_append,
      words_append_blank rfl, single, List.singleton_append]

/-- Solid pieces with a space between them are the words of the text that they make. -/
theorem words_intercalate {pieces : List (List Char)}
    (solid : ∀ piece ∈ pieces, piece ≠ [] ∧ ∀ c ∈ piece, isBlank c = false) :
    words ([' '].intercalate pieces) = pieces := by
  induction pieces with
  | nil => rfl
  | cons piece pieces ih =>
    obtain ⟨⟨nonempty, unblank⟩, rest⟩ := List.forall_mem_cons.mp solid
    rw [words_intercalate_cons nonempty unblank, ih rest]

/-- Characters that are no blanks become part of the first word behind them. -/
theorem exists_words_append (text : List Char) : ∃ word rest, ∀ {name : List Char}, name ≠ [] →
    (∀ c ∈ name, isBlank c = false) → words (name ++ text) = (name ++ word) :: rest := by
  cases pieces : text.splitOnP isBlank with
  | nil => exact absurd pieces (List.splitOnP_ne_nil _ text)
  | cons word rest =>
    refine ⟨word, rest.filter (!·.isEmpty), fun {name} nonempty solid => ?_⟩
    have joined : (name ++ text).splitOnP isBlank = (name ++ word) :: rest := by
      clear nonempty
      induction name with
      | nil => exact pieces
      | cons c name ih =>
        obtain ⟨first, more⟩ := List.forall_mem_cons.mp solid
        rw [List.cons_append, List.splitOnP_cons_eq_if_modifyHead, first, ih more]
        rfl
    rw [words, joined, List.filter_cons_of_pos (by simp [nonempty])]

theorem flatten_words (text : List Char) : (words text).flatten = text.filter (!isBlank ·) := by
  rw [words, List.flatten_filter_not_isEmpty]
  induction text with
  | nil => rfl
  | cons c text ih =>
    rw [List.splitOnP_cons_eq_if_modifyHead]
    cases solid : isBlank c with
    | true => simpa [solid] using ih
    | false =>
      cases pieces : text.splitOnP isBlank with
      | nil => exact absurd pieces (List.splitOnP_ne_nil _ text)
      | cons first rest =>
        rw [pieces] at ih
        simpa [solid] using ih

theorem trim_eq_self {text : List Char} (first : ∀ c ∈ text.head?, isBlank c = false)
    (last : ∀ c ∈ text.getLast?, isBlank c = false) : trim text = text := by
  have kept {text : List Char} (first : ∀ c ∈ text.head?, isBlank c = false) :
      text.dropWhile isBlank = text := by
    cases text with
    | nil => rfl
    | cons c text => exact List.dropWhile_cons_of_neg (by simp [first c rfl])
  rw [trim, kept first, kept (by rwa [List.head?_reverse]), List.reverse_reverse]

/-- A text is what is left of it without the blanks at its ends, and these blanks. -/
theorem exists_eq_trim (text : List Char) : ∃ left right, text = left ++ trim text ++ right ∧
    (∀ c ∈ left, isBlank c = true) ∧ ∀ c ∈ right, isBlank c = true := by
  have blank {text : List Char} : ∀ c ∈ text.takeWhile isBlank, isBlank c = true :=
    fun c member => List.mem_takeWhile_imp member
  refine ⟨text.takeWhile isBlank,
    ((text.dropWhile isBlank).reverse.takeWhile isBlank).reverse, ?_, blank, ?_⟩
  · rw [List.append_assoc, trim, ← List.reverse_append, List.takeWhile_append_dropWhile,
      List.reverse_reverse, List.takeWhile_append_dropWhile]
  · exact fun c member => blank c (List.mem_reverse.mp member)

theorem words_trim (text : List Char) : words (trim text) = words text := by
  obtain ⟨left, right, same, blank, blank'⟩ := exists_eq_trim text
  calc words (trim text) = words (left ++ trim text ++ right) := by
        rw [words_append_blanks blank', words_blanks_append blank]
    _ = words text := by rw [← same]

theorem not_isBlank_of_head_trim {c : Char} (first : (trim text).head? = some c) :
    isBlank c = false := by
  obtain ⟨blanks, split⟩ := List.rdropWhile_prefix isBlank (text.dropWhile isBlank)
  have split : trim text ++ blanks = text.dropWhile isBlank := split
  have kept := List.head?_dropWhile_not isBlank text
  rwa [← split, List.head?_append, first] at kept

theorem not_isBlank_of_getLast_trim {c : Char} (last : (trim text).getLast? = some c) :
    isBlank c = false := by
  have kept := List.head?_dropWhile_not isBlank (text.dropWhile isBlank).reverse
  rw [trim, List.getLast?_reverse] at last
  rwa [last] at kept

theorem head?_filter_eq_head? {text : List Char} (first : ∀ c ∈ text.head?, isBlank c = false) :
    (text.filter (!isBlank ·)).head? = text.head? := by
  cases text with
  | nil => rfl
  | cons c text =>
    rw [List.filter_cons_of_pos (by simp [first c rfl]), List.head?_cons, List.head?_cons]

theorem head?_trim (text : List Char) : (trim text).head? = (words text).flatten.head? := by
  rw [← words_trim, flatten_words]
  exact (head?_filter_eq_head? fun c first => not_isBlank_of_head_trim first).symm

theorem getLast?_trim (text : List Char) :
    (trim text).getLast? = (words text).flatten.getLast? := by
  rw [← words_trim, flatten_words, ← List.head?_reverse, ← List.head?_reverse,
    ← List.filter_reverse]
  refine (head?_filter_eq_head? fun c last => ?_).symm
  rw [List.head?_reverse] at last
  exact not_isBlank_of_getLast_trim last

/-- What a text ends with, apart from blanks, is the end of its last word. -/
theorem suffix_trim_iff {c : Char} :
    [c] <:+ trim text ↔ (words text).flatten.getLast? = some c := by
  rw [← getLast?_trim, List.getLast?_eq_some_iff]
  exact exists_congr fun _ => eq_comm

theorem trim_eq_nil_iff : trim text = [] ↔ words text = [] := by
  constructor
  · intro empty
    rw [← words_trim, empty]
    rfl
  · intro none
    have first := head?_trim text
    rw [none] at first
    exact List.head?_eq_none_iff.mp first

end ByteMachine.Text
