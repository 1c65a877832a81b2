import TiledText.Proofs.Document.Marks
import TiledText.Proofs.Document.Seams

/-!
# Marks that survive an edit

Around an edit there are four carets: the two of the selection in the document
before, and two in the document after, one in the first new line and one in the
last. Before the first and after the last the text is the same on both sides, and
whatever is known of it afterwards was known before.
-/

namespace TiledText

namespace Selection

/-!
## The first and the last new line
-/

theorem fades_take_edited {selection : Selection} (sound : selection.Sound) {carry : Bool}
    {inserted : Text} {line : Line}
    (first : (selection.edited carry inserted).head? = some line) :
    Fades (line.marks.take selection.first.before.width)
      (selection.first.line.marks.take selection.first.before.width) := by
  cases known : line.state with
  | none =>
      rw [Line.marks_of_unknown known, List.take_replicate]
      exact fades_unknown _ _
  | some v =>
      rcases sound.take_tags_edited first known with ⟨t, before, same⟩
      rw [Line.marks_of_known known, Line.marks_of_known before, ← List.map_take, same,
        List.map_take]
      exact fades_refl _

theorem fades_drop_edited {selection : Selection} (sound : selection.Sound) {carry : Bool}
    {inserted front : Text} {line : Line}
    (last : (selection.edited carry inserted).getLast? = some line)
    (text : line.text = front ++ selection.last.after) :
    Fades (line.marks.drop front.width)
      (selection.last.line.marks.drop selection.last.before.width) := by
  cases known : line.state with
  | none =>
      rw [Line.marks_of_unknown known, List.drop_replicate]
      exact fades_unknown _ _
  | some v =>
      rcases sound.drop_tags_edited last text known with ⟨u, before, same⟩
      rw [Line.marks_of_known known, Line.marks_of_known before, ← List.map_drop, same,
        List.map_drop]
      exact fades_refl _

end Selection

namespace Document

/-!
## Marks on either side of an edit
-/

theorem mark?_replace_before {d : Document} (sound : d.Sound) {start stop : Nat}
    {selection : Selection} (selected : select? d.lines start stop = some selection)
    {inserted : Text} {i : Nat} {tag : UInt32} (inside : i < Text.width (d.text.take start))
    (known : (d.replace selection inserted).document.mark? i = some tag) :
    d.mark? i = some tag := by
  have inner := sound_of_select? sound selected
  have later := sound_replace sound selected inserted
  rcases select?_eq_some_iff.mp selected with ⟨first, _, _⟩
  rcases caret?_eq_some_iff.mp first with ⟨shape, _, _⟩
  rcases exists_caret?_first_seam sound selected inserted with
    ⟨caret, resolved, line, above, before⟩
  rcases caret?_eq_some_iff.mp resolved with ⟨lines, _, _⟩
  have prior : caret.prior = selection.first.prior := by
    rw [Caret.prior, Caret.prior, above, before]
  have marks : Fades caret.priorMarks selection.first.priorMarks := by
    rw [Caret.priorMarks, Caret.priorMarks, above, before]
    exact fades_append rfl (fades_refl _) (selection.fades_take_edited inner line)
  rw [Document.text, ← prior_eq_take first] at inside
  rw [later.mark?_before lines (by rw [prior]; exact inside)] at known
  exact (sound.mark?_before shape inside).mpr (marks i tag known)

theorem mark?_replace_after {d : Document} (sound : d.Sound) {start stop : Nat}
    {selection : Selection} (selected : select? d.lines start stop = some selection)
    {inserted : Text} {i : Nat} {tag : UInt32}
    (known : (d.replace selection inserted).document.mark?
      (Text.width (d.text.take start) + inserted.width + i) = some tag) :
    d.mark? (Text.width (d.text.take stop) + i) = some tag := by
  have inner := sound_of_select? sound selected
  have later := sound_replace sound selected inserted
  rcases select?_eq_some_iff.mp selected with ⟨first, last, _⟩
  rcases caret?_eq_some_iff.mp last with ⟨shape, _, _⟩
  rcases exists_caret?_last_seam sound selected inserted with
    ⟨caret, resolved, line, below, after, prior⟩
  rcases caret?_eq_some_iff.mp resolved with ⟨lines, _, _⟩
  have text : caret.line.text = caret.before ++ selection.last.after := by
    rw [← after, caret.before_append_after]
  have count : (caret.line.marks.drop caret.before.width).length =
      (selection.last.line.marks.drop selection.last.before.width).length := by
    have covered := (sound_of_mem_edited (List.mem_of_getLast? line)).length_marks
    have parts := selection.last.width_before_add_width_after
    rw [List.length_drop, List.length_drop, covered, inner.last.length_marks, text,
      Text.width_append, ← parts, Nat.add_sub_cancel_left, Nat.add_sub_cancel_left]
  have marks : Fades caret.restMarks selection.last.restMarks := by
    rw [Caret.restMarks, Caret.restMarks, below]
    exact fades_append count (selection.fades_drop_edited inner line text) (fades_refl _)
  rw [Document.text, ← prior_eq_take first, ← Text.width_append, ← prior,
    later.mark?_after lines] at known
  rw [Document.text, ← prior_eq_take last]
  exact (sound.mark?_after shape).mpr (marks i tag known)

/-!
## Tags that survive an edit

An edit never gives a code unit that it leaves in the text another tag. What is known of it
after the edit was known before, also where the tilings could not follow the edit.
-/

theorem mark?_edit {d : Document} (reachable : d.Reachable) {e : Edit}
    (ordered : e.start ≤ e.stop) (bound : e.stop ≤ d.length) :
    (d.edit e).document.text = d.text.take e.start ++ e.inserted ++ d.text.drop e.stop ∧
      (d.edit e).document.marks.length = (d.edit e).document.text.width ∧
      (∀ i tag, i < Text.width (d.text.take e.start) →
        (d.edit e).document.mark? i = some tag → d.mark? i = some tag) ∧
      ∀ i tag, (d.edit e).document.mark?
          (Text.width (d.text.take e.start) + e.inserted.width + i) = some tag →
        d.mark? (Text.width (d.text.take e.stop) + i) = some tag := by
  have sound := reachable.sound
  refine ⟨text_edit sound ordered bound, (sound_edit sound e).length_marks, ?_⟩
  rcases (exists_select?_iff sound.nonempty).mpr ⟨ordered, bound⟩ with ⟨selection, selected⟩
  cases change : e.isNoop with
  | true =>
      rcases Edit.isNoop_iff.mp change with ⟨same, nothing⟩
      rw [edit_of_noop selected change, same, nothing, Text.width_nil, Nat.add_zero]
      exact ⟨fun _ _ _ known => known, fun _ _ known => known⟩
  | false =>
      rw [edit_of_selected selected change]
      constructor
      · intro i tag inside known
        exact mark?_replace_before sound selected inside known
      · intro i tag known
        exact mark?_replace_after sound selected known

/-- In a joined line the text from below has the tag that it had there. -/
theorem mark?_edit_across_lines :
    ∃ d e, d = (ofText ['a', 'b', '\n', 'c', 'd'] default).after
        [.set 0 [⟨2, 7⟩], .set 1 [⟨2, 8⟩]] ∧ e = Edit.replace 1 4 ['x'] ∧
      (d.edit e).document.marks = [some 7, some 7, some 8] ∧
      d.mark? 0 = some 7 ∧ d.mark? 4 = some 8 := by
  have run := reachable_after (.ofText ['a', 'b', '\n', 'c', 'd'] default)
    [.set 0 [⟨2, 7⟩], .set 1 [⟨2, 8⟩]]
  have law := mark?_edit (e := Edit.replace 1 4 ['x']) run (by decide) (by decide +kernel)
  refine ⟨_, _, rfl, rfl, by decide +kernel, ?_, ?_⟩
  · exact law.2.2.1 0 7 (by decide +kernel) (by decide +kernel)
  · exact law.2.2.2 0 8 (by decide +kernel)

end Document
end TiledText
