import TiledText.Proofs.Document.Frame
import TiledText.Proofs.Document.Remainder
import TiledText.Proofs.Document.Seams
import TiledText.Proofs.Document.Typing

/-!
# Undoing an insertion

Inserted text stands between the two seams of its insertion, and deleting it
selects from one seam to the other. What is left is a line with the old text.
Its tags, if it is known, are those on the old sides of the seams, so they are the
tags that the line had before.

Whether the line is known again depends on the insertion. If it had to widen a
tiling with a token in it, and had room to do so, then the line was known all along.
-/

namespace TiledText

namespace Selection

/-!
## The line that is restored
-/

theorem tags_restored {caret : Caret} {seams : Selection} {carry : Bool} {inserted : Text}
    (empty : Sound ⟨caret, caret⟩) (sound : seams.Sound)
    (first : (edited ⟨caret, caret⟩ carry inserted).head? = some seams.first.line)
    (last : (edited ⟨caret, caret⟩ carry inserted).getLast? = some seams.last.line)
    (before : seams.first.before = caret.before) (after : seams.last.after = caret.after)
    {v : Tiling} (known : seams.remainder.state = some v) :
    ∃ t, caret.line.state = some t ∧ v.tags = t.tags := by
  have text : seams.last.line.text = seams.last.before ++ caret.after := by
    rw [← after, seams.last.before_append_after]
  rcases sound.tags_joined (joined_of_state_remainder known) with
    ⟨front, back, knownFront, knownBack, taken, dropped⟩
  rcases empty.take_tags_edited first knownFront with ⟨t, old, kept⟩
  rcases empty.drop_tags_edited last text knownBack with ⟨u, same, moved⟩
  have one : u = t := Option.some.inj (same.symm.trans old)
  refine ⟨t, old, ?_⟩
  calc
    v.tags = v.tags.take seams.first.position.column.toNat ++
        v.tags.drop seams.first.position.column.toNat := (List.take_append_drop _ _).symm
    _ = t.tags.take caret.before.width ++ t.tags.drop caret.before.width := by
        rw [taken, dropped, before, kept, moved, one]
    _ = t.tags := List.take_append_drop _ _

/-- Text without a newline keeps a line known that has a token to widen, and room for it. -/
theorem edited_of_room {caret : Caret} (empty : Sound ⟨caret, caret⟩) {t : Tiling}
    (known : caret.line.state = some t) (filled : caret.line.text ≠ []) {inserted : Text}
    (unbroken : '\n' ∉ inserted)
    (room : caret.line.text.width + inserted.width < UInt32.size) (carry : Bool) :
    ∃ line u, edited ⟨caret, caret⟩ carry inserted = [line] ∧ line.state = some u := by
  have tokens : t.isEmpty = true → inserted = [] := by
    intro bare
    have covered := empty.first.covered t known
    rw [Tiling.isEmpty_iff.mp bare] at covered
    exact absurd (Text.eq_nil_of_width_eq_zero covered.symm) filled
  rcases Caret.exists_widens empty.first known room tokens with ⟨u, widens⟩
  have wider := (Caret.state_typed_eq_some_iff empty.first).mpr ⟨t, known, widens⟩
  exact ⟨caret.typed inserted, u, edited_of_unbroken empty unbroken carry, wider⟩

theorem known_restored {caret : Caret} {seams : Selection} (sound : seams.Sound)
    (within : seams.withinLine = true) (before : seams.first.before = caret.before)
    (after : seams.last.after = caret.after) (short : caret.line.text.width < UInt32.size)
    {u : Tiling} (known : seams.first.line.state = some u)
    (same : seams.last.line = seams.first.line) :
    ∃ v, seams.remainder.state = some v := by
  have room : seams.Roomy [] := by
    rw [Roomy, before, after, caret.width_before_add_width_after]
    exact short
  rcases sound.joined_eq room with ⟨_, state, remains⟩ | ⟨clash, _⟩
  · rw [remainder_of_joined remains]
    cases state with
    | some v =>
        exact ⟨v, rfl⟩
    | none =>
        -- An unknown remainder would come from an unknown line.
        have unknown := unknown_joined remains
        rw [same, known] at unknown
        cases unknown with
        | inl missing =>
            cases missing
        | inr missing =>
            cases missing
  · have across := clash.1
    rw [within] at across
    cases across

end Selection

namespace Document

/-!
## The document that is restored
-/

theorem select?_seams {d : Document} (sound : d.Sound) {start : Nat} {caret : Caret}
    (selected : select? d.lines start start = some ⟨caret, caret⟩) (inserted : Text) :
    ∃ seams, select? (d.replace ⟨caret, caret⟩ inserted).document.lines start
        (start + inserted.length) = some seams ∧
      (Selection.edited ⟨caret, caret⟩ d.settings.carrySplitTokens inserted).head? =
        some seams.first.line ∧
      (Selection.edited ⟨caret, caret⟩ d.settings.carrySplitTokens inserted).getLast? =
        some seams.last.line ∧
      seams.first.above = caret.above ∧ seams.last.below = caret.below ∧
      seams.first.before = caret.before ∧ seams.last.after = caret.after ∧
      seams.last.prior = caret.prior ++ inserted := by
  rcases exists_caret?_first_seam sound selected inserted with
    ⟨first, start, top, above, before⟩
  rcases exists_caret?_last_seam sound selected inserted with
    ⟨last, stop, bottom, below, after, prior⟩
  exact ⟨⟨first, last⟩, select?_eq_some_iff.mpr ⟨start, stop, Nat.le_add_right _ _⟩, top, bottom,
    above, below, before, after, prior⟩

theorem withinLine_seams {d : Document} (sound : d.Sound) {start : Nat} {caret : Caret}
    (selected : select? d.lines start start = some ⟨caret, caret⟩) {inserted : Text}
    (unbroken : '\n' ∉ inserted) {stop : Nat} {seams : Selection}
    (between : select? (d.replace ⟨caret, caret⟩ inserted).document.lines start stop = some seams)
    (above : seams.first.above = caret.above)
    (prior : seams.last.prior = caret.prior ++ inserted) : seams.withinLine = true := by
  have later := sound_replace sound selected inserted
  rcases select?_eq_some_iff.mp selected with ⟨old, _, _⟩
  rcases select?_eq_some_iff.mp between with ⟨_, last, _⟩
  have count := later.count_prior last
  rw [prior, List.count_append, List.count_eq_zero.mpr unbroken, sound.count_prior old,
    Nat.add_zero] at count
  rw [Selection.withinLine, Caret.position, Caret.position, above, count]
  exact beq_self_eq_true _

/-- Only the line of the caret can differ from what it was, and only in its state. -/
theorem exists_restored {d : Document} (sound : d.Sound)
    (lenient : d.settings.recoverFromErrors = true) {start : Nat} {caret : Caret}
    (resolved : caret? d.lines start = some caret) (inserted : Text) :
    ∃ widened line, d.edit (.insert start inserted) = ⟨widened, none⟩ ∧
      widened.edit (.delete start (start + inserted.length)) =
        ⟨{ d with lines := caret.above ++ line :: caret.below }, none⟩ ∧
      line.text = caret.line.text ∧
      (∀ v, line.state = some v → ∃ t, caret.line.state = some t ∧ v.tags = t.tags) ∧
      ('\n' ∉ inserted → caret.line.text ≠ [] →
        caret.line.text.width + inserted.width < UInt32.size →
        ∀ t, caret.line.state = some t → ∃ v, line.state = some v) := by
  have selected : select? d.lines start start = some ⟨caret, caret⟩ :=
    select?_eq_some_iff.mpr ⟨resolved, resolved, Nat.le_refl _⟩
  cases still : (Edit.insert start inserted).isNoop with
  | true =>
      have empty : inserted = [] := (Edit.isNoop_iff.mp still).2
      rcases caret?_eq_some_iff.mp resolved with ⟨shape, _, _⟩
      refine ⟨d, caret.line, edit_of_noop selected still, ?_, rfl, fun v known => ⟨v, known, rfl⟩,
        fun _ _ _ t known => ⟨t, known⟩⟩
      rw [← shape, empty]
      exact edit_of_noop selected (Edit.isNoop_iff.mpr ⟨rfl, rfl⟩)
  | false =>
      have inner := sound_of_select? sound selected
      rcases select?_seams sound selected inserted with
        ⟨seams, between, first, last, above, below, before, after, prior⟩
      have outer := sound_of_select? (sound_replace sound selected inserted) between
      have change : (Edit.delete start (start + inserted.length)).isNoop = false := by
        rw [Bool.eq_false_iff]
        intro noop
        have same : start = start + inserted.length := (Edit.isNoop_iff.mp noop).1
        have nothing := List.length_eq_zero_iff.mp (Nat.left_eq_add.mp same)
        rw [Edit.isNoop_iff.mpr ⟨rfl, nothing⟩] at still
        cases still
      refine ⟨(d.replace ⟨caret, caret⟩ inserted).document, seams.remainder, ?_, ?_, ?_, ?_, ?_⟩
      · rw [edit_of_selected selected still]
        exact Outcome.ext rfl (error_replace_of_recover lenient _ inserted)
      · rw [edit_of_selected between change]
        apply Outcome.ext
        · show (Document.replace _ seams []).document = _
          rw [document_replace, outer.edited_nil, splice, above, below, document_replace,
            List.append_assoc]
          rfl
        · apply error_replace_of_recover
          rw [settings_replace]
          exact lenient
      · rw [seams.text_remainder, before, after, caret.before_append_after]
      · intro v known
        exact Selection.tags_restored inner outer first last before after known
      · intro unbroken filled room t known
        rcases Selection.edited_of_room inner known filled unbroken room
          d.settings.carrySplitTokens with ⟨line, u, edited, wide⟩
        rw [edited] at first last
        have top : line = seams.first.line := Option.some.inj first
        have bottom : line = seams.last.line := Option.some.inj last
        rw [top] at wide bottom
        have within := withinLine_seams sound selected unbroken between above prior
        exact Selection.known_restored outer within before after (inner.first.width_lt known) wide
          bottom.symm

/-!
## Deleting what was inserted

With recovery, deleting what was just inserted gives back the text and every line but the one
of the caret. That line is unknown, or it was known and has the same tags. It stays known if
the inserted text has no newline and there was a code unit to take a tag from and room for the
text.
-/

theorem getElem?_around_of_ne {above below : List Line} (line other : Line) {n : Nat}
    (elsewhere : n ≠ above.length) :
    (above ++ line :: below)[n]? = (above ++ other :: below)[n]? := by
  rw [List.getElem?_append, List.getElem?_append]
  split
  case isTrue inside =>
    rfl
  case isFalse beyond =>
    cases place : n - above.length with
    | zero =>
        exact absurd (Nat.le_antisymm (Nat.le_of_sub_eq_zero place) (Nat.le_of_not_lt beyond))
          elsewhere
    | succ further =>
        rw [List.getElem?_cons_succ, List.getElem?_cons_succ]

theorem tiling?_of_around {d : Document} {above below : List Line} {line : Line}
    (shape : d.lines = above ++ line :: below) : d.tiling? above.length = line.state := by
  rw [tiling?, shape, List.getElem?_append_right (Nat.le_refl _), Nat.sub_self,
    List.getElem?_cons_zero, Option.bind_some]

theorem edit_delete_inserted {d : Document} (reachable : d.Reachable)
    (lenient : d.settings.recoverFromErrors = true) {start : Nat} (bound : start ≤ d.length)
    (inserted : Text) :
    ∃ place widened undone, d.position? start = some place ∧
      d.edit (.insert start inserted) = ⟨widened, none⟩ ∧
      widened.edit (.delete start (start + inserted.length)) = ⟨undone, none⟩ ∧
      undone.text = d.text ∧ undone.lineCount = d.lineCount ∧
      (∀ n, n ≠ place.line → undone.lines[n]? = d.lines[n]?) ∧
      (∀ v, undone.tiling? place.line = some v →
        ∃ t, d.tiling? place.line = some t ∧ v.tags = t.tags) ∧
      ('\n' ∉ inserted → ∀ part, d.lineText? place.line = some part → part ≠ [] →
        part.width + inserted.width < UInt32.size →
        ∀ t, d.tiling? place.line = some t → ∃ v, undone.tiling? place.line = some v) := by
  have sound := reachable.sound
  rcases (exists_caret?_iff sound.nonempty).mpr bound with ⟨caret, resolved⟩
  rcases caret?_eq_some_iff.mp resolved with ⟨shape, _, _⟩
  rcases exists_restored sound lenient resolved inserted with
    ⟨widened, line, insertion, deletion, text, tags, known⟩
  have old : d.tiling? caret.above.length = caret.line.state := tiling?_of_around shape
  have new : tiling? { d with lines := caret.above ++ line :: caret.below } caret.above.length =
      line.state := tiling?_of_around rfl
  have place : caret.position.line = caret.above.length := rfl
  refine ⟨caret.position, widened, _, ?_, insertion, deletion, ?_, ?_, ?_, ?_, ?_⟩
  · rw [position?, resolved, Option.map_some]
  · rw [Document.text, Document.text, shape, List.map_append, List.map_append, List.map_cons,
      List.map_cons, text]
  · rw [lineCount, lineCount, shape, List.length_append, List.length_append]
    rfl
  · intro n elsewhere
    rw [shape]
    exact getElem?_around_of_ne line caret.line elsewhere
  · rw [place, old, new]
    exact tags
  · intro unbroken part there filled room
    rw [place, lineText?, shape, List.getElem?_append_right (Nat.le_refl _), Nat.sub_self,
      List.getElem?_cons_zero, Option.map_some] at there
    rw [← Option.some.inj there] at filled room
    rw [place, old, new]
    exact known unbroken filled room

def twoTokens : Document :=
  (ofText ['a', 'b', '\n', 'c'] default).after [.set 0 [⟨1, 7⟩, ⟨2, 8⟩], .set 1 [⟨1, 9⟩]]

/-- A character put between the tokens and taken out again leaves both tags. -/
theorem edit_delete_inserted_between :
    ∃ widened undone v, twoTokens.edit (.insert 1 ['x']) = ⟨widened, none⟩ ∧
      widened.edit (.delete 1 2) = ⟨undone, none⟩ ∧ undone.text = ['a', 'b', '\n', 'c'] ∧
      undone.tiling? 0 = some v ∧ v.tags = [7, 8] ∧ undone.lines[1]? = twoTokens.lines[1]? := by
  have run : twoTokens.Reachable := reachable_after (.ofText _ _) _
  rcases edit_delete_inserted run (by decide +kernel) (show 1 ≤ twoTokens.length by decide +kernel)
    ['x'] with ⟨place, widened, undone, here, insertion, deletion, text, _, others, tags, known⟩
  have top : twoTokens.position? 1 = some ⟨0, 1⟩ := by decide +kernel
  rw [Option.some.inj (here.symm.trans top)] at others tags known
  have before : ∀ t ∈ twoTokens.tiling? 0, t.tags = [7, 8] := by decide +kernel
  have first : twoTokens.lineText? 0 = some ['a', 'b'] := by decide +kernel
  rcases Option.isSome_iff_exists.mp (show (twoTokens.tiling? 0).isSome by decide +kernel)
    with ⟨t, old⟩
  rcases known (by decide) ['a', 'b'] first (by decide) (by decide +kernel) t old with ⟨v, new⟩
  rcases tags v new with ⟨u, same, equal⟩
  refine ⟨widened, undone, v, insertion, deletion, ?_, new, ?_, others 1 (by decide)⟩
  · rw [text]
    decide +kernel
  · rw [equal]
    exact before u same

end Document
end TiledText
