import TiledText.Text.Utf16

/-!
# Texts put together from pieces

A document is read as its lines with separators between them. Around one chosen
line, such a reading falls apart into three: the lines above, each with a
separator after it, the chosen line, and the lines below, each with a separator
before it. The same holds of anything that is written line by line, so the law is
stated for lists.

The second part says what lines there are when text is inserted into a line. The
first and the last inserted line take up what stood before and after.
-/

namespace TiledText

/-!
## Pieces and separators
-/

theorem intercalate_cons_eq {separator first : List α} (rest : List (List α)) :
    separator.intercalate (first :: rest) = first ++ rest.flatMap (separator ++ ·) := by
  induction rest generalizing first with
  | nil =>
      simp
  | cons second more ih =>
      rw [List.intercalate_cons_cons, ih, List.flatMap_cons]
      simp

theorem intercalate_around {separator : List α} (above below : List (List α))
    (piece : List α) :
    separator.intercalate (above ++ piece :: below) =
      above.flatMap (· ++ separator) ++ (piece ++ below.flatMap (separator ++ ·)) := by
  induction above with
  | nil =>
      exact intercalate_cons_eq below
  | cons first rest ih =>
      rw [List.cons_append, List.intercalate_cons_of_ne_nil (by simp), ih, List.flatMap_cons]
      simp

theorem intercalate_around_pieces {separator : List α} (above below : List (List α))
    {pieces : List (List α)} (nonempty : pieces ≠ []) :
    separator.intercalate (above ++ pieces ++ below) =
      above.flatMap (· ++ separator) ++
        (separator.intercalate pieces ++ below.flatMap (separator ++ ·)) := by
  cases pieces with
  | nil =>
      exact absurd rfl nonempty
  | cons first rest =>
      rw [List.append_assoc, List.cons_append, intercalate_around, intercalate_cons_eq,
        List.flatMap_append, List.append_assoc]

theorem exists_middle (first second : α) (more : List α) :
    ∃ middle last, first :: second :: more = first :: (middle ++ [last]) :=
  ⟨_, _, congrArg (first :: ·) (List.dropLast_concat_getLast (List.cons_ne_nil second more)).symm⟩

namespace Text

/-!
## Widths of parts
-/

theorem width_le_of_mem_lines {text part : Text} (member : part ∈ text.lines) :
    width part ≤ width text := by
  rcases List.append_of_mem member with ⟨above, below, shape⟩
  have whole := ofLines_lines text
  rw [shape, ofLines, intercalate_around] at whole
  rw [← whole, width_append, width_append]
  omega

/-!
## Inserting text into a line
-/

theorem one_or_many (text : Text) :
    (∃ only, text.lines = [only]) ∨
      ∃ first middle last, text.lines = first :: (middle ++ [last]) := by
  cases shape : text.lines with
  | nil =>
      exact absurd shape text.lines_ne_nil
  | cons first rest =>
      cases rest with
      | nil =>
          exact Or.inl ⟨first, rfl⟩
      | cons second more =>
          rcases exists_middle first second more with ⟨middle, last, same⟩
          exact Or.inr ⟨first, middle, last, same⟩

theorem eq_nil_of_width_eq_zero {text : Text} (zero : text.width = 0) : text = [] := by
  cases text with
  | nil =>
      rfl
  | cons c rest =>
      have wide : 0 < utf16Width c := by
        unfold utf16Width
        split
        · exact Nat.one_pos
        · exact Nat.two_pos
      rw [width_cons] at zero
      omega

theorem newline_not_mem_append {text more : Text} (left : '\n' ∉ text) (right : '\n' ∉ more) :
    '\n' ∉ text ++ more := by
  intro member
  cases List.mem_append.mp member with
  | inl first =>
      exact left first
  | inr second =>
      exact right second

theorem lines_of_unbroken {text : Text} (unbroken : '\n' ∉ text) : text.lines = [text] := by
  have whole : lines (ofLines [text]) = [text] := by
    apply lines_ofLines
    · intro part same
      rw [List.mem_singleton.mp same]
      exact unbroken
    · exact List.cons_ne_nil _ _
  rw [ofLines, List.intercalate_singleton] at whole
  exact whole

theorem lines_insert_one {before inserted after only : Text} (left : '\n' ∉ before)
    (right : '\n' ∉ after) (one : inserted.lines = [only]) :
    lines (before ++ inserted ++ after) = [before ++ only ++ after] := by
  have text : inserted = only := by
    rw [← ofLines_lines inserted, one, ofLines, List.intercalate_singleton]
  have member : only ∈ inserted.lines := by
    rw [one]
    exact List.mem_singleton_self only
  rw [text]
  exact lines_of_unbroken (newline_not_mem_append
    (newline_not_mem_append left (newline_not_mem_of_mem_lines member)) right)

theorem lines_insert_many {before inserted after first last : Text} {middle : List Text}
    (left : '\n' ∉ before) (right : '\n' ∉ after)
    (many : inserted.lines = first :: (middle ++ [last])) :
    lines (before ++ inserted ++ after) =
      (before ++ first) :: (middle ++ [last ++ after]) := by
  have unbroken : ∀ part ∈ first :: (middle ++ [last]), '\n' ∉ part := by
    intro part member
    rw [← many] at member
    exact newline_not_mem_of_mem_lines member
  have text : before ++ inserted ++ after =
      ofLines ((before ++ first) :: (middle ++ [last ++ after])) := by
    rw [← ofLines_lines inserted, many, ofLines, ofLines, intercalate_cons_eq,
      intercalate_cons_eq]
    simp
  rw [text]
  apply lines_ofLines
  · intro part member
    cases List.mem_cons.mp member with
    | inl head =>
        rw [head]
        exact newline_not_mem_append left (unbroken first (List.mem_cons_self ..))
    | inr tail =>
        cases List.mem_append.mp tail with
        | inl inner =>
            exact unbroken part (by simp [inner])
        | inr final =>
            rw [List.mem_singleton.mp final]
            exact newline_not_mem_append (unbroken last (by simp)) right
  · exact List.cons_ne_nil _ _

end Text
end TiledText
