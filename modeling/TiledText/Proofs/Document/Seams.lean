import TiledText.Proofs.Document.Soundness

/-!
# Where an edit meets the old text

The text that an edit puts in has a seam at either end. The caret at the first
seam stands in the first new line, below the same lines as before and after the
same text. The caret at the second stands in the last new line, above the same
lines and before the same text.

If the line at a seam is known, the line that was selected there was known, and on
the old side of the seam the tags are the same.
-/

namespace TiledText

theorem drop_eq_of_suffix {whole part : List α} {n : Nat} (ends : part <:+ whole)
    (count : whole.length = n + part.length) : whole.drop n = part := by
  rcases ends with ⟨front, rfl⟩
  rw [List.length_append] at count
  exact List.drop_left' (Nat.add_right_cancel count)

/-!
## Tags on the old side
-/

namespace Selection

theorem Sound.take_tags_edited {selection : Selection} (sound : selection.Sound) {carry : Bool}
    {inserted : Text} {line : Line} (first : (selection.edited carry inserted).head? = some line)
    {v : Tiling} (known : line.state = some v) :
    ∃ t, selection.first.line.state = some t ∧
      v.tags.take selection.first.before.width = t.tags.take selection.first.before.width := by
  rw [List.head?_eq_getElem?] at first
  rcases state_edited first known with ⟨states, replayed, there⟩
  rw [← List.head?_eq_getElem?] at there
  exact sound.take_tags_replay replayed there

theorem Sound.drop_tags_edited {selection : Selection} (sound : selection.Sound) {carry : Bool}
    {inserted front : Text} {line : Line}
    (last : (selection.edited carry inserted).getLast? = some line)
    (text : line.text = front ++ selection.last.after) {v : Tiling}
    (known : line.state = some v) :
    ∃ u, selection.last.line.state = some u ∧
      v.tags.drop front.width = u.tags.drop selection.last.before.width := by
  have covered := (Document.sound_of_mem_edited (List.mem_of_getLast? last)).length_tags known
  rw [List.getLast?_eq_getElem?] at last
  rcases state_edited last known with ⟨states, replayed, there⟩
  rw [length_edited sound, ← length_replay replayed, ← List.getLast?_eq_getElem?] at there
  rcases sound.drop_tags_replay replayed there with ⟨u, before, kept⟩
  have parts := selection.last.width_before_add_width_after
  refine ⟨u, before, drop_eq_of_suffix kept ?_⟩
  rw [covered, text, Text.width_append, List.length_drop, sound.last.length_tags before, ← parts,
    Nat.add_sub_cancel_left]

end Selection

/-!
## The carets at the seams
-/

namespace Document

theorem exists_caret?_first_seam {d : Document} (sound : d.Sound) {start stop : Nat}
    {selection : Selection} (selected : select? d.lines start stop = some selection)
    (inserted : Text) :
    ∃ caret, caret? (d.replace selection inserted).document.lines start = some caret ∧
      (selection.edited d.settings.carrySplitTokens inserted).head? = some caret.line ∧
      caret.above = selection.first.above ∧ caret.before = selection.first.before := by
  have inner := sound_of_select? sound selected
  rcases select?_eq_some_iff.mp selected with ⟨first, _, _⟩
  rcases caret?_eq_some_iff.mp first with ⟨_, _, count⟩
  rcases selection.exists_edited_eq_cons inner d.settings.carrySplitTokens inserted with
    ⟨head, tail, more, edited, text⟩
  let caret : Caret := ⟨selection.first.above, head, selection.first.before.length,
    tail ++ selection.last.below⟩
  have before : caret.before = selection.first.before := by
    show head.text.take selection.first.before.length = selection.first.before
    rw [text, List.take_left]
  refine ⟨caret, caret?_eq_some_iff.mpr ⟨?_, ?_, ?_⟩, by rw [edited]; rfl, rfl, before⟩
  · rw [document_replace, splice, edited, List.append_assoc]
    rfl
  · show selection.first.before.length ≤ head.text.length
    rw [text, List.length_append]
    exact Nat.le_add_right _ _
  · rw [Caret.prior, before]
    exact count

theorem exists_caret?_last_seam {d : Document} (sound : d.Sound) {start stop : Nat}
    {selection : Selection} (selected : select? d.lines start stop = some selection)
    (inserted : Text) :
    ∃ caret, caret? (d.replace selection inserted).document.lines (start + inserted.length) =
        some caret ∧
      (selection.edited d.settings.carrySplitTokens inserted).getLast? = some caret.line ∧
      caret.below = selection.last.below ∧ caret.after = selection.last.after ∧
      caret.prior = selection.first.prior ++ inserted := by
  have inner := sound_of_select? sound selected
  rcases select?_eq_some_iff.mp selected with ⟨first, _, _⟩
  rcases caret?_eq_some_iff.mp first with ⟨_, _, count⟩
  rcases selection.exists_edited_eq_concat inner d.settings.carrySplitTokens inserted with
    ⟨init, final, front, edited, text⟩
  let caret : Caret := ⟨selection.first.above ++ init, final, front.length,
    selection.last.below⟩
  have after : caret.after = selection.last.after := by
    show final.text.drop front.length = selection.last.after
    rw [text, List.drop_left]
  have lines : (d.replace selection inserted).document.lines =
      caret.above ++ caret.line :: caret.below := by
    rw [document_replace, splice, edited]
    simp [caret]
  -- The rest of the text is the same, and so is what stands before it.
  have prior : caret.prior = selection.first.prior ++ inserted := by
    have whole := text_replace inner inserted (d := d)
    rw [Document.text, lines, ofLines_around, ← caret.before_append_after, after] at whole
    have same : caret.prior ++ selection.last.rest =
        selection.first.prior ++ inserted ++ selection.last.rest := by
      rw [← whole]
      simp [Caret.prior, Caret.rest, caret]
    exact List.append_cancel_right same
  refine ⟨caret, caret?_eq_some_iff.mpr ⟨lines, ?_, ?_⟩, ?_, rfl, after, prior⟩
  · show front.length ≤ final.text.length
    rw [text, List.length_append]
    exact Nat.le_add_right _ _
  · rw [prior, List.length_append, count]
  · rw [edited, List.getLast?_concat]

end Document
end TiledText
