import TiledText.Proofs.Document.Soundness

/-!
# What an edit leaves in place

An edit puts new lines in the place of those from the line where it starts to the
line where it ends. The lines above stay where they are and the lines below move
together. Both keep their text and their state, whatever becomes of the lines
between, and so the lines that are pending there stay pending.

Before an edit and after it the document is a splice around the same selection, so
the laws are laws of a splice.
-/

namespace TiledText

/-!
## The line of a caret
-/

theorem count_newline_flatMap {lines : List Line} (sound : ∀ line ∈ lines, line.Sound) :
    (lines.flatMap (·.text ++ ['\n'])).count '\n' = lines.length := by
  induction lines with
  | nil =>
      rfl
  | cons first rest ih =>
      have top := (sound first (List.mem_cons_self ..)).unbroken
      have later := ih fun other member => sound other (List.mem_cons_of_mem _ member)
      rw [List.flatMap_cons, List.count_append, List.count_append, later,
        List.count_eq_zero.mpr top, List.length_cons, Nat.zero_add, Nat.add_comm]
      rfl

namespace Caret

theorem count_prior {caret : Caret} (above : ∀ line ∈ caret.above, line.Sound)
    (line : caret.line.Sound) : caret.prior.count '\n' = caret.above.length := by
  have before : caret.before.count '\n' = 0 :=
    List.count_eq_zero.mpr fun member => line.unbroken (List.mem_of_mem_take member)
  rw [prior, List.count_append, before, count_newline_flatMap above, Nat.add_zero]

end Caret

theorem Document.Sound.count_prior {d : Document} (sound : d.Sound) {offset : Nat} {caret : Caret}
    (resolved : caret? d.lines offset = some caret) :
    caret.prior.count '\n' = caret.above.length := by
  rcases caret?_eq_some_iff.mp resolved with ⟨shape, _, _⟩
  apply Caret.count_prior
  · intro line member
    apply sound.line
    rw [shape]
    exact List.mem_append_left _ member
  · exact sound.line _ (line_mem_of_caret? resolved)

theorem Document.Sound.count_take {d : Document} (sound : d.Sound) {offset : Nat} {caret : Caret}
    (resolved : caret? d.lines offset = some caret) :
    (d.text.take offset).count '\n' = caret.position.line := by
  rw [text, ← prior_eq_take resolved, sound.count_prior resolved]
  rfl

/-!
## Lines that the selection reaches
-/

/-- The lines that the selection reaches begin and end with the lines of its carets. -/
theorem exists_touched {lines : List Line} {start stop : Nat} {selection : Selection}
    (selected : select? lines start stop = some selection) :
    ∃ touched, lines = selection.first.above ++ touched ++ selection.last.below ∧
      selection.first.above.length + touched.length = selection.last.above.length + 1 ∧
      touched.head? = some selection.first.line ∧
      touched.tail.getLast? =
        if selection.withinLine then none else some selection.last.line := by
  rcases select?_eq_some_iff.mp selected with ⟨first, _, _⟩
  rcases caret?_eq_some_iff.mp first with ⟨shape, _, _⟩
  cases lies_of_select? selected with
  | inside within above _ below _ =>
      refine ⟨[selection.first.line], ?_, ?_, rfl, ?_⟩
      · rw [below, shape, List.append_assoc]
        rfl
      · rw [above]
        rfl
      · rw [within]
        rfl
  | across between within above below =>
      refine ⟨selection.first.line :: (between ++ [selection.last.line]), ?_, ?_, rfl, ?_⟩
      · rw [shape, below]
        simp
      · rw [above]
        simp [Nat.add_assoc]
      · rw [within, List.tail_cons, List.getLast?_concat]
        rfl

theorem lines_eq_around {lines : List Line} {start stop : Nat} {selection : Selection}
    (selected : select? lines start stop = some selection) :
    ∃ reached, lines = selection.first.above ++ reached ++ selection.last.below ∧
      selection.first.above.length ≤ selection.last.above.length ∧
      selection.first.above.length + reached.length = selection.last.above.length + 1 := by
  rcases exists_touched selected with ⟨touched, shape, count, head, _⟩
  have positive : 0 < touched.length := by
    cases touched with
    | nil =>
        cases head
    | cons line more =>
        exact Nat.succ_pos _
  exact ⟨touched, shape, by omega, count⟩

namespace Document

theorem splice_reached {d : Document} {selection : Selection} {reached : List Line}
    (shape : d.lines = selection.first.above ++ reached ++ selection.last.below) :
    d.splice selection reached = d := by
  rw [splice, ← shape]

/-- Every edit in range is a splice, and the number of new lines is that of the inserted text. -/
theorem edit_eq_splice {d : Document} (sound : d.Sound) {e : Edit} {selection : Selection}
    (selected : select? d.lines e.start e.stop = some selection) :
    ∃ left, left.length = e.inserted.count '\n' + 1 ∧
      (d.edit e).document = d.splice selection left := by
  cases change : e.isNoop with
  | true =>
      rcases Edit.isNoop_iff.mp change with ⟨same, nothing⟩
      rcases lines_eq_around selected with ⟨reached, shape, _, count⟩
      rcases select?_eq_some_iff.mp selected with ⟨first, last, _⟩
      rw [same, last] at first
      rw [← Option.some.inj first, Nat.add_right_inj] at count
      refine ⟨reached, ?_, ?_⟩
      · rw [count, nothing]
        rfl
      · rw [edit_of_noop selected change, splice_reached shape]
  | false =>
      have inner := sound_of_select? sound selected
      refine ⟨selection.edited d.settings.carrySplitTokens e.inserted, ?_, ?_⟩
      · rw [selection.length_edited inner, Text.length_lines]
      · rw [edit_of_selected selected change, document_replace]

/-!
## Lines of a splice
-/

theorem lines_splice_above {d : Document} {selection : Selection} {lines : List Line} {n : Nat}
    (above : n < selection.first.above.length) :
    (d.splice selection lines).lines[n]? = selection.first.above[n]? := by
  rw [splice, List.append_assoc, List.getElem?_append_left above]

theorem lines_splice_below {d : Document} {selection : Selection} {lines : List Line} {n : Nat}
    (below : selection.first.above.length + lines.length ≤ n) :
    (d.splice selection lines).lines[n]? =
      selection.last.below[n - (selection.first.above.length + lines.length)]? := by
  rw [← List.length_append] at below ⊢
  rw [splice, List.getElem?_append_right below]

theorem lineCount_splice (d : Document) (selection : Selection) (lines : List Line) :
    (d.splice selection lines).lineCount =
      selection.first.above.length + lines.length + selection.last.below.length := by
  rw [lineCount, splice, List.length_append, List.length_append]

/-!
## Pending lines

A splice leaves pending what was pending above it or below it, and shifts what is below.
-/

def unknownIn (lines : List Line) : List Nat :=
  (List.range lines.length).filter fun n => (lines[n]?.bind Line.state).isNone

theorem pending_eq_unknownIn (d : Document) : d.pending = unknownIn d.lines :=
  rfl

theorem lt_of_mem_unknownIn {lines : List Line} {n : Nat} (member : n ∈ unknownIn lines) :
    n < lines.length :=
  List.mem_range.mp (List.mem_filter.mp member).1

theorem unknownIn_append (above below : List Line) :
    unknownIn (above ++ below) =
      unknownIn above ++ (unknownIn below).map (above.length + ·) := by
  unfold unknownIn
  rw [List.length_append, List.range_add, List.filter_append, List.filter_map]
  congr 1
  · apply List.filter_congr
    intro n member
    rw [List.getElem?_append_left (List.mem_range.mp member)]
  · congr 1
    apply List.filter_congr
    intro n _
    rw [Function.comp_apply, List.getElem?_append_right (Nat.le_add_right _ _),
      Nat.add_sub_cancel_left]

/-- The places before a stretch of lines, and those after it. -/
def around (start count : Nat) : Nat → Bool :=
  fun n => n < start ∨ start + count ≤ n

theorem pending_splice (d : Document) (selection : Selection) (lines : List Line) :
    (d.splice selection lines).pending.filter
        (around selection.first.above.length lines.length) =
      unknownIn selection.first.above ++
        (unknownIn selection.last.below).map
          (selection.first.above.length + lines.length + ·) := by
  have above : (unknownIn selection.first.above).filter
      (around selection.first.above.length lines.length) = unknownIn selection.first.above := by
    apply List.filter_eq_self.mpr
    intro n member
    simp [around, lt_of_mem_unknownIn member]
  have between : ((unknownIn lines).map (selection.first.above.length + ·)).filter
      (around selection.first.above.length lines.length) = [] := by
    apply List.filter_eq_nil_iff.mpr
    intro n member
    rcases List.mem_map.mp member with ⟨m, inside, rfl⟩
    simp [around, lt_of_mem_unknownIn inside]
  have below : ((unknownIn selection.last.below).map
      (selection.first.above.length + lines.length + ·)).filter
        (around selection.first.above.length lines.length) =
          (unknownIn selection.last.below).map
            (selection.first.above.length + lines.length + ·) := by
    apply List.filter_eq_self.mpr
    intro n member
    rcases List.mem_map.mp member with ⟨m, _, rfl⟩
    simp [around]
  rw [pending_eq_unknownIn, splice, unknownIn_append, unknownIn_append, List.length_append,
    List.filter_append, List.filter_append, above, between, below, List.append_nil]

theorem pending_splice_eq_map (d : Document) (selection : Selection) (old new : List Line) :
    (d.splice selection new).pending.filter (around selection.first.above.length new.length) =
      ((d.splice selection old).pending.filter
        (around selection.first.above.length old.length)).map fun n =>
          if n < selection.first.above.length then n else n - old.length + new.length := by
  rw [pending_splice, pending_splice, List.map_append, List.map_map]
  congr 1
  · refine ((List.map_congr_left ?_).trans (List.map_id _)).symm
    intro n member
    rw [if_pos (lt_of_mem_unknownIn member), id_eq]
  · apply List.map_congr_left
    intro n _
    have below : ¬ selection.first.above.length + old.length + n <
        selection.first.above.length := by omega
    rw [Function.comp_apply, if_neg below]
    omega

/-!
## Lines beside an edit

An edit changes only the lines from the one where it starts to the one where it ends. Every
other line keeps its text and its state, also if the edit reports that the tilings could not
follow.
-/

theorem edit_keeps_other_lines {d : Document} (reachable : d.Reachable) {e : Edit}
    (ordered : e.start ≤ e.stop) (bound : e.stop ≤ d.length) :
    ∃ first last, d.position? e.start = some first ∧ d.position? e.stop = some last ∧
      first.line = (d.text.take e.start).count '\n' ∧
      last.line = (d.text.take e.stop).count '\n' ∧
      first.line ≤ last.line ∧ last.line < d.lineCount ∧
      (d.edit e).document.lineCount =
        d.lineCount - (last.line - first.line) + e.inserted.count '\n' ∧
      (∀ n, n < first.line → (d.edit e).document.lines[n]? = d.lines[n]?) ∧
      (∀ n, last.line < n →
        (d.edit e).document.lines[n - (last.line - first.line) + e.inserted.count '\n']? =
          d.lines[n]?) ∧
      (d.edit e).document.pending.filter
          (fun n => n < first.line ∨ first.line + e.inserted.count '\n' < n) =
        (d.pending.filter (fun n => n < first.line ∨ last.line < n)).map fun n =>
          if n < first.line then n else n - (last.line - first.line) + e.inserted.count '\n' := by
  have sound := reachable.sound
  rcases (exists_select?_iff sound.nonempty).mpr ⟨ordered, bound⟩ with ⟨selection, selected⟩
  rcases select?_eq_some_iff.mp selected with ⟨first, last, _⟩
  rcases edit_eq_splice sound selected with ⟨left, size, after⟩
  rcases lines_eq_around selected with ⟨reached, shape, down, count⟩
  -- Both documents are splices around the selection, with different lines between.
  have before := splice_reached shape
  have total := lineCount_splice d selection reached
  rw [before] at total
  have start : selection.first.position.line = selection.first.above.length := rfl
  have stop : selection.last.position.line = selection.last.above.length := rfl
  refine ⟨selection.first.position, selection.last.position, ?_, ?_,
    (sound.count_take first).symm, (sound.count_take last).symm, down, ?_, ?_, ?_, ?_, ?_⟩
  · rw [position?, first, Option.map_some]
  · rw [position?, last, Option.map_some]
  · omega
  · rw [after, lineCount_splice]
    omega
  · intro n above
    have same : (d.splice selection reached).lines[n]? = selection.first.above[n]? :=
      lines_splice_above above
    rw [before] at same
    rw [after, lines_splice_above above, same]
  · intro n below
    have same : (d.splice selection reached).lines[n]? =
        selection.last.below[n - (selection.first.above.length + reached.length)]? :=
      lines_splice_below (by omega)
    rw [before] at same
    rw [after, lines_splice_below (by omega), same]
    congr 1
    omega
  · have same := pending_splice_eq_map d selection reached left
    unfold around at same
    rw [before, ← after, size, count] at same
    refine same.trans (List.map_congr_left ?_)
    intro n member
    have outside := of_decide_eq_true (List.mem_filter.mp member).2
    rw [start, stop]
    split
    case isTrue above =>
      rfl
    case isFalse beyond =>
      omega

/-- Two known lines that cannot be joined, and a known line below them. -/
def clashAbove : Document :=
  (ofText ['x', '\n', 'a', '\n', 'b', '\n', 'y'] ⟨true, false⟩).after
    [.set 1 [⟨1, 1⟩], .set 2 [⟨0, 5⟩, ⟨1, 6⟩], .set 3 [⟨1, 9⟩]]

/-- An edit that reports an error, and moves the line below it with what is known of it. -/
theorem edit_keeps_line_below_clash :
    let e := Edit.replace 3 4 ['p', '\n', 'q', '\n', 'r']
    (clashAbove.edit e).error = some (.tiling (.unordered 1)) ∧
      (clashAbove.edit e).document.lines[4]? = clashAbove.lines[3]? ∧
      clashAbove.lines[3]? = some ⟨['y'], some ⟨#[⟨1, 9⟩], by decide⟩⟩ := by
  have run : clashAbove.Reachable := reachable_after (.ofText _ _) _
  rcases edit_keeps_other_lines (e := .replace 3 4 ['p', '\n', 'q', '\n', 'r']) run (by decide)
    (by decide +kernel) with ⟨first, last, start, stop, _, _, _, _, _, _, below, _⟩
  have top : clashAbove.position? 3 = some ⟨1, 1⟩ := by decide +kernel
  have bottom : clashAbove.position? 4 = some ⟨2, 0⟩ := by decide +kernel
  rw [show first = ⟨1, 1⟩ from Option.some.inj (start.symm.trans top),
    show last = ⟨2, 0⟩ from Option.some.inj (stop.symm.trans bottom)] at below
  exact ⟨by decide +kernel, below 3 (by decide), by decide +kernel⟩

end Document
end TiledText
