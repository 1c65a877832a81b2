import TiledText.Proofs.Document.Replacement
import TiledText.Proofs.Document.Undo

/-!
# Deleting piece by piece

A stretch of text can be deleted at once, or its second piece first and then its
first piece. In between, the second way joins a line that the first way never has.
Where that cannot be done, the line becomes unknown, and it stays so. In every other
case both ways leave the same tags.

The second way therefore knows no more than the first. If it joins its lines twice,
then they can be joined at once: a hairline that would be in the way has survived the
first joining, and is in the way of the second.
-/

namespace TiledText

namespace Selection

/-!
## Hairlines in a joined line

A hairline with which the rest of the line below begins is left in the joined line, and there
the seam stands before it.
-/

/-- What is left of the line above has a token. -/
def Filled (caret : Caret) : Prop :=
  ∃ t ∈ caret.line.state, t.isEmpty = false ∧ (0 < caret.position.column ∨ t.length = 0)

/-- What is left of the line below begins with a hairline. -/
def Thin (caret : Caret) : Prop :=
  ∃ u ∈ caret.line.state,
    u.hairline = true ∧ (caret.position.column = 0 ∨ caret.position.column < u.length)

theorem clashes_iff {selection : Selection} :
    selection.Clashes ↔
      selection.withinLine = false ∧ Filled selection.first ∧ Thin selection.last := by
  constructor
  · intro clash
    rcases clash with ⟨across, t, first, u, last, filled, thin⟩
    exact ⟨across, ⟨t, first, filled⟩, u, last, thin⟩
  · intro parts
    rcases parts with ⟨across, ⟨t, first, filled⟩, u, last, thin⟩
    exact ⟨across, t, first, u, last, filled, thin⟩

theorem Sound.not_clashes {selection : Selection} (sound : selection.Sound) {j : Tiling}
    (remains : selection.joined = .ok (some j)) : ¬ selection.Clashes := by
  have room : selection.Roomy [] := by
    rw [Roomy, ← sound.length_joined remains]
    exact j.length.toNat_lt_size
  rcases sound.joined_eq room with ⟨calm, _⟩ | ⟨_, index, failed⟩
  · exact calm
  · rw [remains] at failed
    cases failed

theorem column_eq_zero_of_not_filled {caret : Caret} (sound : caret.line.Sound) {t : Tiling}
    (known : caret.line.state = some t) (bare : ¬ Filled caret) : caret.position.column = 0 := by
  have inside := Caret.column_le_length sound known
  cases blank : t.isEmpty with
  | true =>
      rw [Tiling.isEmpty_iff.mp blank] at inside
      exact UInt32.le_zero_iff.mp inside
  | false =>
      by_cases zero : caret.position.column = 0
      · exact zero
      · exact absurd ⟨t, known, blank, Or.inl (UInt32.pos_iff_ne_zero.mpr zero)⟩ bare

theorem Sound.column_lt_length {selection : Selection} (sound : selection.Sound) {r u : Tiling}
    (remains : selection.joined = .ok (some r)) (last : selection.last.line.state = some u)
    (more : selection.last.position.column < u.length) :
    selection.first.position.column < r.length := by
  have parts := selection.last.width_before_add_width_after
  rw [UInt32.lt_iff_toNat_lt, Caret.toNat_column sound.last last, sound.last.covered u last,
    ← parts] at more
  rw [UInt32.lt_iff_toNat_lt, sound.toNat_column remains, sound.length_joined remains]
  omega

theorem Sound.column_le_column {selection : Selection} (sound : selection.Sound)
    (within : selection.withinLine = true) {t : Tiling}
    (known : selection.first.line.state = some t) :
    selection.first.position.column ≤ selection.last.position.column := by
  cases sound.lies with
  | inside _ _ line _ ordered =>
      rw [UInt32.le_iff_toNat_le, Caret.toNat_column sound.first known,
        Caret.toNat_column sound.last (by rw [line, known]), Caret.before, Caret.before, line]
      exact Text.width_take_le _ ordered
  | across _ across _ _ =>
      rw [within] at across
      cases across

theorem Sound.hairline_joined {selection : Selection} (sound : selection.Sound) {r : Tiling}
    (remains : selection.joined = .ok (some r)) (thin : Thin selection.last) :
    r.hairline = true := by
  have calm := sound.not_clashes remains
  have bare : selection.withinLine = false → ¬ Filled selection.first :=
    fun across filled => calm (clashes_iff.mpr ⟨across, filled, thin⟩)
  rcases thin with ⟨u, last, hair, place⟩
  rw [joined] at remains
  cases sound.lies with
  | inside within _ line _ ordered =>
      rw [if_pos within] at remains
      rcases LineState.through_eq_some_iff.mp remains with ⟨t, first, deleted⟩
      have same : t = u := by
        rw [line, first] at last
        exact Option.some.inj last
      rw [Tiling.hairline_delete deleted, same, hair]
      intro whole
      rcases whole with ⟨differ, start, stop⟩
      rw [same] at stop
      cases place with
      | inl zero =>
          exact differ (start.trans zero.symm)
      | inr more =>
          rw [stop] at more
          exact UInt32.lt_irrefl _ more
  | across _ within _ _ =>
      rw [if_neg (by simp [within])] at remains
      rcases bind_eq_ok_iff.mp remains with ⟨head, cut, rest⟩
      rcases bind_eq_ok_iff.mp rest with ⟨tail, cut', appended⟩
      rcases LineState.append_eq_some_iff.mp appended with ⟨h, b, rfl, rfl, together⟩
      rcases LineState.through_eq_some_iff.mp cut with ⟨t, first, ending⟩
      rcases LineState.through_eq_some_iff.mp cut' with ⟨u', last', beginning⟩
      rw [last] at last'
      cases last'
      have thin : b.hairline = true := (Tiling.hairline_deleteBeginning beginning).mpr ⟨hair, place⟩
      rcases Tiling.append_cases together with ⟨blank, _⟩ | ⟨_, _, same⟩ | ⟨_, filled, _⟩
      · rw [Tiling.isEmpty_iff.mp blank] at thin
        cases thin
      · rw [same, thin]
      · exact absurd ⟨t, first, (Tiling.isEmpty_deleteEnding ending).mp filled⟩ (bare within)

theorem Sound.thin_collapsed {selection : Selection} (sound : selection.Sound) {r : Tiling}
    (remains : selection.joined = .ok (some r)) (thin : Thin selection.last) :
    Thin selection.collapsed.last := by
  have calm := sound.not_clashes remains
  have hair := sound.hairline_joined remains thin
  rcases sound.tags_joined remains with ⟨t, _, first, _⟩
  have place : selection.first.position.column = 0 ∨
      selection.first.position.column < r.length := by
    cases within : selection.withinLine with
    | true =>
        rcases thin with ⟨u, last, _, start | more⟩
        · have ordered := sound.column_le_column within first
          rw [start] at ordered
          exact Or.inl (UInt32.le_zero_iff.mp ordered)
        · exact Or.inr (sound.column_lt_length remains last more)
    | false =>
        left
        apply column_eq_zero_of_not_filled sound.first first
        intro filled
        exact calm (clashes_iff.mpr ⟨within, filled, thin⟩)
  rw [← position_collapsed] at place
  refine ⟨r, ?_, hair, place⟩
  show selection.remainder.state = some r
  rw [remainder_of_joined remains]

/-!
## The tags of a remainder
-/

theorem Sound.tags_remainder {selection : Selection} (sound : selection.Sound) {v : Tiling}
    (known : selection.remainder.state = some v) :
    ∃ t u, selection.first.line.state = some t ∧ selection.last.line.state = some u ∧
      v.tags.take selection.first.before.width = t.tags.take selection.first.before.width ∧
      v.tags.drop selection.first.before.width = u.tags.drop selection.last.before.width := by
  have remains := joined_of_state_remainder known
  rcases sound.tags_joined remains with ⟨t, u, first, last, before, after⟩
  rw [sound.toNat_column remains] at before after
  exact ⟨t, u, first, last, before, after⟩

theorem Sound.known_remainder {selection : Selection} (sound : selection.Sound) {t u : Tiling}
    (first : selection.first.line.state = some t) (last : selection.last.line.state = some u)
    (room : selection.Roomy []) (calm : ¬ selection.Clashes) :
    ∃ w, selection.remainder.state = some w := by
  rcases sound.joined_eq room with ⟨_, state, remains⟩ | ⟨clash, _⟩
  · rw [remainder_of_joined remains]
    cases state with
    | some w =>
        exact ⟨w, rfl⟩
    | none =>
        have unknown := unknown_joined remains
        rw [first, last] at unknown
        cases unknown with
        | inl missing =>
            cases missing
        | inr missing =>
            cases missing
  · exact absurd clash calm

/-!
## A deletion above a seam

The carets here are those of the three offsets, `first`, `middle` and `last`. After the
second piece is deleted, the caret of `middle` stands at the seam, and that of `first`
stands where it stood: in the joined line, or in its own line further up.
-/

/-- Where the caret of the first offset stands once the second piece is deleted. -/
structure Stays (first middle last now : Caret) : Prop where
  above : now.above = first.above
  before : now.before = first.before
  joined : withinLine ⟨first, middle⟩ = true → now.line = remainder ⟨middle, last⟩
  apart : withinLine ⟨first, middle⟩ = false → now.line = first.line

theorem line_eq_of_within {first middle : Caret} (front : Sound ⟨first, middle⟩)
    (within : withinLine ⟨first, middle⟩ = true) :
    middle.line = first.line ∧ first.column ≤ middle.column := by
  cases front.lies with
  | inside _ _ line _ ordered =>
      exact ⟨line, ordered⟩
  | across _ across _ _ =>
      rw [within] at across
      cases across

theorem tags_front {first middle last now : Caret} (front : Sound ⟨first, middle⟩)
    (stays : Stays first middle last now) {t' m r : Tiling} (known : now.line.state = some t')
    (seam : (remainder ⟨middle, last⟩).state = some r) (between : middle.line.state = some m)
    (kept : r.tags.take middle.before.width = m.tags.take middle.before.width) :
    ∃ t, first.line.state = some t ∧
      t'.tags.take first.before.width = t.tags.take first.before.width := by
  cases within : withinLine ⟨first, middle⟩ with
  | false =>
      rw [stays.apart within] at known
      exact ⟨t', known, rfl⟩
  | true =>
      rcases line_eq_of_within front within with ⟨line, ordered⟩
      have shorter : first.before.width ≤ middle.before.width := by
        rw [Caret.before, Caret.before, line]
        exact Text.width_take_le _ ordered
      have one : t' = r := by
        rw [stays.joined within, seam] at known
        exact (Option.some.inj known).symm
      refine ⟨m, by rw [← line, between], ?_⟩
      calc
        t'.tags.take first.before.width
            = (r.tags.take middle.before.width).take first.before.width := by
          rw [one, List.take_take, Nat.min_eq_left shorter]
        _ = m.tags.take first.before.width := by
          rw [kept, List.take_take, Nat.min_eq_left shorter]

/-- What clashes at once clashes in one of the two steps. -/
theorem not_clashes_piecewise {first middle last now : Caret} (front : Sound ⟨first, middle⟩)
    (back : Sound ⟨middle, last⟩) (rest : Sound ⟨now, (collapsed ⟨middle, last⟩).last⟩)
    (stays : Stays first middle last now) {r v : Tiling}
    (lower : joined ⟨middle, last⟩ = .ok (some r))
    (upper : joined ⟨now, (collapsed ⟨middle, last⟩).last⟩ = .ok (some v)) :
    ¬ Clashes ⟨first, last⟩ := by
  intro clash
  rcases clashes_iff.mp clash with ⟨across, ⟨t, known, filled, place⟩, thin⟩
  cases within : withinLine ⟨first, middle⟩ with
  | true =>
      -- The line above is the one that the first step joins, and more of it is left there.
      have further : withinLine ⟨middle, last⟩ = false := by
        have same : first.position.line = middle.position.line := by simpa [withinLine] using within
        rw [withinLine, ← same]
        exact across
      have ordered := front.column_le_column within known
      rw [← (line_eq_of_within front within).1] at known
      refine back.not_clashes lower (clashes_iff.mpr ⟨further, ⟨t, known, filled, ?_⟩, thin⟩)
      exact place.imp_left fun positive => UInt32.lt_of_lt_of_le positive ordered
  | false =>
      have further : withinLine ⟨now, (collapsed ⟨middle, last⟩).last⟩ = false := by
        rw [withinLine, Caret.position, Caret.position, stays.above]
        exact within
      have column : now.position.column = first.position.column := by
        rw [Caret.position, Caret.position, stays.before]
      rw [← stays.apart within] at known
      rw [← column] at place
      exact rest.not_clashes upper (clashes_iff.mpr
        ⟨further, ⟨t, known, filled, place⟩, back.thin_collapsed lower thin⟩)

/-- If what is left in two steps is known, it is known at once, and has the same tags. -/
theorem tags_piecewise {first middle last now : Caret} (outer : Sound ⟨first, last⟩)
    (front : Sound ⟨first, middle⟩) (back : Sound ⟨middle, last⟩)
    (rest : Sound ⟨now, (collapsed ⟨middle, last⟩).last⟩)
    (stays : Stays first middle last now) {v : Tiling}
    (known : (remainder ⟨now, (collapsed ⟨middle, last⟩).last⟩).state = some v) :
    ∃ w, (remainder ⟨first, last⟩).state = some w ∧ v.tags = w.tags := by
  rcases rest.tags_remainder known with ⟨t', r, top, seam, kept, dropped⟩
  have lower : (remainder ⟨middle, last⟩).state = some r := seam
  rcases back.tags_remainder lower with ⟨m, u, between, bottom, inner, tail⟩
  rcases tags_front front stays top lower between inner with ⟨t, start, same⟩
  have upper := joined_of_state_remainder known
  have after : (collapsed ⟨middle, last⟩).last.after = last.after := after_collapsed _
  have seamed : (collapsed ⟨middle, last⟩).last.before = middle.before := before_collapsed _
  have room : Roomy ⟨first, last⟩ [] := by
    have bound := v.length.toNat_lt_size
    rw [rest.length_joined upper, stays.before, after] at bound
    exact bound
  have calm := not_clashes_piecewise front back rest stays (joined_of_state_remainder lower) upper
  rcases outer.known_remainder start bottom room calm with ⟨w, once⟩
  rcases outer.tags_remainder once with ⟨t₀, u₀, start', bottom', head, foot⟩
  rw [start] at start'
  rw [bottom] at bottom'
  cases start'
  cases bottom'
  rw [stays.before] at kept dropped
  refine ⟨w, once, ?_⟩
  calc
    v.tags = v.tags.take first.before.width ++ v.tags.drop first.before.width :=
      (List.take_append_drop _ _).symm
    _ = w.tags.take first.before.width ++ w.tags.drop first.before.width := by
      rw [kept, same, head, dropped, seamed, tail, foot]
    _ = w.tags := List.take_append_drop _ _

end Selection

namespace Document

/-!
## The carets of the three offsets
-/

theorem edit_delete_eq {d : Document} (sound : d.Sound)
    (lenient : d.settings.recoverFromErrors = true) {start stop : Nat} {selection : Selection}
    (selected : select? d.lines start stop = some selection) :
    d.edit (.delete start stop) =
      ⟨{ d with lines := selection.first.above ++ selection.remainder :: selection.last.below },
        none⟩ := by
  have inner := sound_of_select? sound selected
  cases change : (Edit.delete start stop).isNoop with
  | false =>
      rw [edit_of_selected selected change]
      apply Outcome.ext
      · show (d.replace selection []).document = _
        rw [document_replace, inner.edited_nil, splice, List.append_assoc]
        rfl
      · exact error_replace_of_recover lenient selection []
  | true =>
      -- Nothing is selected, and what remains of the line is the line.
      rcases select?_eq_some_iff.mp selected with ⟨first, last, _⟩
      rcases caret?_eq_some_iff.mp first with ⟨shape, _, _⟩
      have empty : start = stop := (Edit.isNoop_iff.mp change).1
      rw [← empty] at last
      rcases selection with ⟨caret, other⟩
      have same : other = caret := Option.some.inj (last.symm.trans first)
      rw [same] at inner ⊢
      have whole : Selection.remainder ⟨caret, caret⟩ = caret.line := by
        rw [Selection.remainder_of_joined inner.joined_empty, caret.before_append_after]
      rw [edit_of_noop selected change, whole, ← shape]

theorem exists_select?_remaining {d : Document} (sound : d.Sound) {start middle stop : Nat}
    {first seam last : Caret} (front : select? d.lines start middle = some ⟨first, seam⟩)
    (back : select? d.lines middle stop = some ⟨seam, last⟩) :
    ∃ now, select? (seam.above ++ Selection.remainder ⟨seam, last⟩ :: last.below) start middle =
        some ⟨now, (Selection.collapsed ⟨seam, last⟩).last⟩ ∧
      Selection.Stays first seam last now := by
  have collapsed := select?_collapsed sound back
  rw [lines_replace_nil (sound_of_select? sound back)] at collapsed
  rcases select?_eq_some_iff.mp collapsed with ⟨_, below, _⟩
  rcases select?_eq_some_iff.mp front with ⟨resolved, resolved', ordered⟩
  rcases caret?_eq_some_iff.mp resolved with ⟨_, inside, count⟩
  rcases caret?_eq_some_iff.mp resolved' with ⟨_, inside', _⟩
  cases lies_of_select? front with
  | inside within above line _ columns =>
      have same : seam.line = first.line := line
      let now : Caret := ⟨seam.above, Selection.remainder ⟨seam, last⟩, first.column, last.below⟩
      have short : first.column ≤ seam.before.length := by
        rw [Caret.before, List.length_take]
        exact Nat.le_min.mpr ⟨columns, by rw [same]; exact inside⟩
      have before : now.before = first.before := by
        show (Selection.remainder ⟨seam, last⟩).text.take first.column = first.before
        rw [Selection.text_remainder, List.take_append_of_le_length short, Caret.before,
          List.take_take, Nat.min_eq_left columns, same]
        rfl
      have there : caret? (seam.above ++ Selection.remainder ⟨seam, last⟩ :: last.below) start =
          some now := by
        refine caret?_eq_some_iff.mpr ⟨rfl, ?_, ?_⟩
        · show first.column ≤ (Selection.remainder ⟨seam, last⟩).text.length
          rw [Selection.text_remainder, List.length_append]
          exact Nat.le_trans short (Nat.le_add_right _ _)
        · rw [Caret.prior, before, show now.above = first.above from above]
          exact count
      refine ⟨now, select?_eq_some_iff.mpr ⟨there, below, ordered⟩, above, before, fun _ => rfl, ?_⟩
      intro across
      rw [within] at across
      cases across
  | across between within above _ =>
      let now : Caret :=
        ⟨first.above, first.line, first.column,
          between ++ Selection.remainder ⟨seam, last⟩ :: last.below⟩
      have there : caret? (seam.above ++ Selection.remainder ⟨seam, last⟩ :: last.below) start =
          some now := by
        refine caret?_eq_some_iff.mpr ⟨?_, inside, count⟩
        rw [show seam.above = _ from above, List.append_assoc]
        rfl
      refine ⟨now, select?_eq_some_iff.mpr ⟨there, below, ordered⟩, rfl, rfl, ?_, fun _ => rfl⟩
      intro same
      rw [within] at same
      cases same

/-!
## Two deletions or one

With recovery, deleting a stretch of text in two pieces, the second first, leaves the text that
deleting it at once leaves, and the same states on all lines but the one where the stretch
began. That line is unknown, or else it is known both ways and has the same tags.
-/

theorem lines_of_two_deletions {d : Document} (sound : d.Sound)
    (lenient : d.settings.recoverFromErrors = true) {start middle stop : Nat}
    {first seam last : Caret} (front : select? d.lines start middle = some ⟨first, seam⟩)
    (back : select? d.lines middle stop = some ⟨seam, last⟩)
    (outer : select? d.lines start stop = some ⟨first, last⟩) :
    ∃ halfway line, d.edit (.delete middle stop) = ⟨halfway, none⟩ ∧
      halfway.edit (.delete start middle) =
        ⟨{ d with lines := first.above ++ line :: last.below }, none⟩ ∧
      line.text = (Selection.remainder ⟨first, last⟩).text ∧
      ∀ v, line.state = some v →
        ∃ w, (Selection.remainder ⟨first, last⟩).state = some w ∧ v.tags = w.tags := by
  rcases exists_select?_remaining sound front back with ⟨now, remaining, stays⟩
  have deletion := edit_delete_eq sound lenient back
  let halfway : Document :=
    { d with lines := seam.above ++ Selection.remainder ⟨seam, last⟩ :: last.below }
  have later : halfway.Sound := by
    have kept := sound_edit sound (.delete middle stop)
    rw [deletion] at kept
    exact kept
  refine ⟨halfway, Selection.remainder ⟨now, (Selection.collapsed ⟨seam, last⟩).last⟩, deletion,
    ?_, ?_, ?_⟩
  · rw [edit_delete_eq later lenient remaining, ← stays.above]
    rfl
  · rw [Selection.text_remainder, Selection.text_remainder, stays.before, Selection.after_collapsed]
  · intro v known
    exact Selection.tags_piecewise (sound_of_select? sound outer) (sound_of_select? sound front)
      (sound_of_select? sound back) (sound_of_select? later remaining) stays known

theorem edit_delete_piecewise {d : Document} (reachable : d.Reachable)
    (lenient : d.settings.recoverFromErrors = true) {start middle stop : Nat}
    (left : start ≤ middle) (right : middle ≤ stop) (bound : stop ≤ d.length) :
    ∃ place once halfway twice, d.position? start = some place ∧
      d.edit (.delete start stop) = ⟨once, none⟩ ∧
      d.edit (.delete middle stop) = ⟨halfway, none⟩ ∧
      halfway.edit (.delete start middle) = ⟨twice, none⟩ ∧
      twice.text = once.text ∧ twice.lineCount = once.lineCount ∧
      (∀ n, n ≠ place.line → twice.lines[n]? = once.lines[n]?) ∧
      ∀ v, twice.tiling? place.line = some v →
        ∃ w, once.tiling? place.line = some w ∧ v.tags = w.tags := by
  have sound := reachable.sound
  have inside : middle ≤ d.length := Nat.le_trans right bound
  rcases (exists_caret?_iff sound.nonempty).mpr (Nat.le_trans left inside) with ⟨first, here⟩
  rcases (exists_caret?_iff sound.nonempty).mpr inside with ⟨seam, between⟩
  rcases (exists_caret?_iff sound.nonempty).mpr bound with ⟨last, there⟩
  have outer : select? d.lines start stop = some ⟨first, last⟩ :=
    select?_eq_some_iff.mpr ⟨here, there, Nat.le_trans left right⟩
  have front : select? d.lines start middle = some ⟨first, seam⟩ :=
    select?_eq_some_iff.mpr ⟨here, between, left⟩
  have back : select? d.lines middle stop = some ⟨seam, last⟩ :=
    select?_eq_some_iff.mpr ⟨between, there, right⟩
  rcases lines_of_two_deletions sound lenient front back outer with
    ⟨halfway, line, lower, upper, text, tags⟩
  have place : first.position.line = first.above.length := rfl
  refine ⟨first.position, _, halfway, _, ?_, edit_delete_eq sound lenient outer, lower, upper,
    ?_, ?_, ?_, ?_⟩
  · rw [position?, here, Option.map_some]
  · rw [Document.text, Document.text, List.map_append, List.map_append, List.map_cons,
      List.map_cons, text]
  · rw [lineCount, lineCount, List.length_append, List.length_append]
    rfl
  · intro n elsewhere
    exact getElem?_around_of_ne line _ elsewhere
  · rw [place, tiling?_of_around rfl, tiling?_of_around rfl]
    exact tags

def sixTokens : Document :=
  (ofText ['a', 'b', '\n', 'c', 'd', '\n', 'e', 'f'] default).after
    [.set 0 [⟨1, 1⟩, ⟨2, 2⟩], .set 1 [⟨1, 3⟩, ⟨2, 4⟩], .set 2 [⟨1, 5⟩, ⟨2, 6⟩]]

/-- From the first line to the last, with a stop in the line between. -/
theorem edit_delete_piecewise_across_lines :
    ∃ once halfway twice v, sixTokens.edit (.delete 1 7) = ⟨once, none⟩ ∧
      sixTokens.edit (.delete 4 7) = ⟨halfway, none⟩ ∧
      halfway.edit (.delete 1 4) = ⟨twice, none⟩ ∧ twice.text = ['a', 'f'] ∧
      twice.tiling? 0 = some v ∧ v.tags = [1, 6] ∧
      ∃ w, once.tiling? 0 = some w ∧ w.tags = [1, 6] := by
  have run : sixTokens.Reachable := reachable_after (.ofText _ _) _
  rcases edit_delete_piecewise run (by decide +kernel) (show 1 ≤ 4 by decide)
    (show 4 ≤ 7 by decide) (by decide +kernel) with
    ⟨place, once, halfway, twice, here, first, second, third, text, _, _, tags⟩
  have top : sixTokens.position? 1 = some ⟨0, 1⟩ := by decide +kernel
  rw [show place = ⟨0, 1⟩ from Option.some.inj (here.symm.trans top)] at tags
  have left : ((sixTokens.edit (.delete 4 7)).document.edit (.delete 1 4)).document = twice := by
    rw [second, third]
  have known : ∃ v, twice.tiling? 0 = some v ∧ v.tags = [1, 6] := by
    rw [← left]
    exact ⟨⟨#[⟨1, 1⟩, ⟨2, 6⟩], by decide⟩, by decide +kernel, by decide +kernel⟩
  rcases known with ⟨v, there, equal⟩
  rcases tags v there with ⟨w, also, same⟩
  refine ⟨once, halfway, twice, v, first, second, third, ?_, there, equal, w, also, ?_⟩
  · rw [← left]
    decide +kernel
  · rw [← same, equal]

/-- Joining the first two lines fails, though the first of them goes anyway. -/
example :
    let d := (ofText ['a', '\n', 'b'] default).after [.set 0 [⟨1, 1⟩], .set 1 [⟨0, 5⟩, ⟨1, 6⟩]]
    (d.edit (.delete 0 2)).document.pending = [] ∧
      ((d.edit (.delete 1 2)).document.edit (.delete 0 1)).document.pending = [0] := by
  decide +kernel

end Document

end TiledText
