/-!
The layout of a program text: lines, comments, surrounding blanks and words. Every function works
on lists of characters, and none of them changes a character it keeps. The lemmas say what a
separator does to each of them; a text is taken apart at its separators and nowhere else.
-/

namespace ByteMachine.Text

/-- The twenty-five characters with the Unicode property `White_Space`. The test is wider than the
one for ASCII text: program files may be laid out with no-break, em and ideographic spaces. -/
def isBlank (c : Char) : Bool :=
  let n := c.toNat
  (0x09 ≤ n && n ≤ 0x0D) || n == 0x20 || n == 0x85 || n == 0xA0 || n == 0x1680 ||
    (0x2000 ≤ n && n ≤ 0x200A) || n == 0x2028 || n == 0x2029 || n == 0x202F ||
    n == 0x205F || n == 0x3000

/-- The lines of a text. A newline ends a line, so a final one begins no further line. A carriage
return before the newline stays; it is blank and falls to `trim`. -/
def lines (text : List Char) : List (List Char) :=
  let pieces := text.splitOn '\n'
  if pieces.getLast? = some [] then pieces.dropLast else pieces

/-- A line without its comment, which runs from the first `#` to the end. -/
def uncommented (line : List Char) : List Char :=
  line.takeWhile (· != '#')

/-- A text without the blanks at both ends. -/
def trim (text : List Char) : List Char :=
  ((text.dropWhile isBlank).reverse.dropWhile isBlank).reverse

/-- The longest pieces of a text that hold no blank. -/
def words (text : List Char) : List (List Char) :=
  (text.splitOnP isBlank).filter (!·.isEmpty)

theorem lines_append_newline (before after : List Char) :
    lines (before ++ '\n' :: after) = before.splitOn '\n' ++ lines after := by
  have split : (before ++ '\n' :: after).splitOn '\n' =
      before.splitOn '\n' ++ after.splitOn '\n' := by
    simp only [List.splitOn_eq_splitOnP]
    exact List.splitOnP_append_cons before after (by decide)
  have ends : after.splitOn '\n' ≠ [] := List.splitOn_ne_nil _ _
  have last : (before.splitOn '\n' ++ after.splitOn '\n').getLast? =
      (after.splitOn '\n').getLast? := by
    rw [List.getLast?_append, List.getLast?_eq_some_getLast ends, Option.some_or]
  simp only [lines, split, last]
  split
  · rw [List.dropLast_append_of_ne_nil ends]
  · rfl

theorem newline_not_mem_of_mem_splitOn {text piece : List Char}
    (member : piece ∈ text.splitOn '\n') : '\n' ∉ piece := by
  induction text generalizing piece with
  | nil =>
    rw [List.splitOn_nil, List.mem_singleton] at member
    rw [member]
    exact List.not_mem_nil
  | cons c text ih =>
    rw [List.splitOn_cons_eq_if_modifyHead] at member
    split at member
    · rcases List.mem_cons.mp member with rfl | later
      · exact List.not_mem_nil
      · exact ih later
    · rename_i other
      cases pieces : text.splitOn '\n' with
      | nil => exact absurd pieces (List.splitOn_ne_nil _ _)
      | cons first rest =>
        rw [pieces] at member ih
        rcases List.mem_cons.mp member with rfl | later
        · have ends := ih List.mem_cons_self
          simp only [List.mem_cons, ends, or_false]
          rintro rfl
          exact other (beq_self_eq_true _)
        · exact ih (List.mem_cons_of_mem _ later)

/-- No line holds a newline. -/
theorem newline_not_mem_of_mem_lines {text line : List Char} (member : line ∈ lines text) :
    '\n' ∉ line := by
  simp only [lines] at member
  split at member
  · exact newline_not_mem_of_mem_splitOn (List.dropLast_subset _ member)
  · exact newline_not_mem_of_mem_splitOn member

theorem lines_eq_singleton {line : List Char} (nonempty : line ≠ []) (single : '\n' ∉ line) :
    lines line = [line] := by
  simp [lines, List.splitOn_eq_singleton single, nonempty]

/-- A text made of lines, each with a newline behind it, has these lines. -/
theorem lines_flatMap {rows : List (List Char)} (single : ∀ row ∈ rows, '\n' ∉ row) :
    lines (rows.flatMap (· ++ ['\n'])) = rows := by
  induction rows with
  | nil => rfl
  | cons row rows ih =>
    obtain ⟨first, rest⟩ := List.forall_mem_cons.mp single
    rw [List.flatMap_cons, List.append_assoc, List.singleton_append, lines_append_newline,
      List.splitOn_eq_singleton first, ih rest]
    rfl

theorem uncommented_append {code : List Char} (plain : '#' ∉ code) (rest : List Char) :
    uncommented (code ++ rest) = code ++ uncommented rest := by
  refine List.takeWhile_append_of_pos fun c member => ?_
  have other : c ≠ '#' := fun same => plain (same ▸ member)
  simpa using other

theorem uncommented_eq_self {code : List Char} (plain : '#' ∉ code) : uncommented code = code := by
  have kept := uncommented_append plain []
  rwa [List.append_nil, show uncommented [] = [] from rfl, List.append_nil] at kept

theorem uncommented_append_comment {code : List Char} (comment : List Char) (plain : '#' ∉ code) :
    uncommented (code ++ '#' :: comment) = code := by
  rw [uncommented_append plain, show uncommented ('#' :: comment) = [] from rfl, List.append_nil]

/-- Nothing behind the start of a comment counts. -/
theorem uncommented_append_of_mem {line : List Char} (marked : '#' ∈ line) (rest : List Char) :
    uncommented (line ++ rest) = uncommented line := by
  obtain ⟨code, remark, rfl, plain⟩ := List.eq_append_cons_of_mem marked
  rw [List.append_assoc, List.cons_append, uncommented_append_comment _ plain,
    uncommented_append_comment _ plain]

theorem trim_append_blanks {left right : List Char} (text : List Char)
    (leftBlank : ∀ c ∈ left, isBlank c = true) (rightBlank : ∀ c ∈ right, isBlank c = true) :
    trim (left ++ text ++ right) = trim text := by
  have rightReversed : ∀ c ∈ right.reverse, isBlank c = true :=
    fun c member => rightBlank c (List.mem_reverse.mp member)
  rw [trim, trim, List.append_assoc, List.dropWhile_append_of_pos leftBlank, List.dropWhile_append]
  split
  · rename_i empty
    have : text.dropWhile isBlank = [] := by simpa using empty
    rw [this]
    have dropped : (right ++ []).dropWhile isBlank = [] := List.dropWhile_append_of_pos rightBlank
    rw [List.append_nil] at dropped
    simp [dropped]
  · rw [List.reverse_append, List.dropWhile_append_of_pos rightReversed]

theorem words_append_blank {blank : Char} (h : isBlank blank = true) (left right : List Char) :
    words (left ++ blank :: right) = words left ++ words right := by
  simp only [words, List.splitOnP_append_cons left right h, List.filter_append]

theorem words_singleton {word : List Char} (nonempty : word ≠ [])
    (solid : ∀ c ∈ word, isBlank c = false) : words word = [word] := by
  rw [words, List.splitOnP_eq_singleton solid]
  simp [nonempty]

end ByteMachine.Text
