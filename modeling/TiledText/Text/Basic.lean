/-!
# Text and its lines

Text is a list of characters. A newline character ends a line, and no other
character does: carriage returns, vertical tabs, form feeds and the separators
of Unicode are ordinary. Text has one more line than it has newlines, so even
the empty text has a line.
-/

namespace TiledText

abbrev Text := List Char

namespace Text

/-- The lines of a text, without the newlines between them. -/
def lines (text : Text) : List Text :=
  text.splitOn '\n'

/-- Writes lines one after the other, with a newline between any two. -/
def ofLines (lines : List Text) : Text :=
  ['\n'].intercalate lines

/-!
## Taking apart and putting together
-/

theorem lines_newline (rest : Text) : lines ('\n' :: rest) = [] :: lines rest := by
  simp [lines, List.splitOn, List.splitOnP_cons_eq_if_modifyHead]

theorem lines_cons {c : Char} (ordinary : c ≠ '\n') (rest : Text) :
    lines (c :: rest) = (lines rest).modifyHead (c :: ·) := by
  simp [lines, List.splitOn, List.splitOnP_cons_eq_if_modifyHead, ordinary]

theorem ofLines_lines (text : Text) : ofLines (lines text) = text :=
  List.intercalate_splitOn '\n'

theorem lines_ofLines {parts : List Text} (ordinary : ∀ part ∈ parts, '\n' ∉ part)
    (nonempty : parts ≠ []) : lines (ofLines parts) = parts :=
  List.splitOn_intercalate '\n' ordinary nonempty

theorem length_lines (text : Text) : (lines text).length = text.count '\n' + 1 := by
  induction text with
  | nil =>
      rfl
  | cons c rest ih =>
      by_cases newline : c = '\n'
      · rw [newline, lines_newline, List.count_cons_self, List.length_cons, ih]
      · rw [lines_cons newline, List.length_modifyHead, List.count_cons_of_ne newline, ih]

theorem lines_ne_nil (text : Text) : lines text ≠ [] := by
  intro vacant
  have count := length_lines text
  simp [vacant] at count

theorem newline_not_mem_of_mem_lines {text part : Text} (member : part ∈ lines text) :
    '\n' ∉ part := by
  induction text generalizing part with
  | nil =>
      rw [List.mem_singleton.mp member]
      exact List.not_mem_nil
  | cons c rest ih =>
      by_cases newline : c = '\n'
      · rw [newline, lines_newline] at member
        cases List.mem_cons.mp member with
        | inl first =>
            simp [first]
        | inr later =>
            exact ih later
      · rw [lines_cons newline] at member
        cases split : lines rest with
        | nil =>
            simp [split] at member
        | cons first more =>
            rw [split] at member ih
            cases List.mem_cons.mp member with
            | inl same =>
                rw [same, List.mem_cons]
                rintro (equal | inside)
                · exact newline equal.symm
                · exact ih (List.mem_cons_self ..) inside
            | inr later =>
                exact ih (List.mem_cons_of_mem _ later)

end Text

end TiledText
