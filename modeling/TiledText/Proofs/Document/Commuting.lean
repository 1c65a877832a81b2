import TiledText.Proofs.Document.Frame
import TiledText.Proofs.Document.Replacement
import TiledText.Proofs.Document.Survival

/-!
# Edits that commute

An edit depends only on the part of the document in which it lies. Further lines
below that part make no difference to it. Further lines above shift its offsets by
the text that they add, and make no other difference.

Where a newline stands between two edits, the document falls apart there, and each
edit lies in a part of its own. They can then be applied in either order.
-/

namespace TiledText

/-!
## Carets in a part of the lines
-/

/-- The number of characters that lines take up when other lines follow them. -/
def extent (lines : List Line) : Nat :=
  (lines.flatMap (·.text ++ ['\n'])).length

theorem extent_append (above below : List Line) :
    extent (above ++ below) = extent above + extent below := by
  rw [extent, List.flatMap_append, List.length_append]
  rfl

/-- The last newline comes on top of the text of the lines. -/
theorem extent_eq {lines : List Line} (nonempty : lines ≠ []) :
    extent lines = (Text.ofLines (lines.map Line.text)).length + 1 := by
  rcases lines.eq_nil_or_concat with vacant | ⟨above, last, rfl⟩
  · exact absurd vacant nonempty
  · rw [List.concat_eq_append, extent_append, ofLines_around above [] last, List.length_append,
      List.length_append]
    simp [extent, Nat.add_assoc]

namespace Caret

def withBelow (bottom : List Line) (caret : Caret) : Caret :=
  { caret with below := caret.below ++ bottom }

def withAbove (top : List Line) (caret : Caret) : Caret :=
  { caret with above := top ++ caret.above }

end Caret

theorem caret?_withBelow {lines : List Line} {offset : Nat} {caret : Caret}
    (resolved : caret? lines offset = some caret) (bottom : List Line) :
    caret? (lines ++ bottom) offset = some (caret.withBelow bottom) := by
  rcases caret?_eq_some_iff.mp resolved with ⟨shape, inside, count⟩
  refine caret?_eq_some_iff.mpr ⟨?_, inside, count⟩
  rw [shape, List.append_assoc]
  rfl

theorem caret?_withAbove {lines : List Line} {offset : Nat} {caret : Caret}
    (resolved : caret? lines offset = some caret) (top : List Line) :
    caret? (top ++ lines) (extent top + offset) = some (caret.withAbove top) := by
  rcases caret?_eq_some_iff.mp resolved with ⟨shape, inside, count⟩
  refine caret?_eq_some_iff.mpr ⟨?_, inside, ?_⟩
  · rw [shape, ← List.append_assoc]
    rfl
  · have further : (caret.withAbove top).prior = top.flatMap (·.text ++ ['\n']) ++ caret.prior := by
      rw [Caret.prior, Caret.withAbove, List.flatMap_append, List.append_assoc]
      rfl
    rw [further, List.length_append, count]
    rfl

namespace Selection

def withBelow (bottom : List Line) (selection : Selection) : Selection :=
  ⟨selection.first.withBelow bottom, selection.last.withBelow bottom⟩

def withAbove (top : List Line) (selection : Selection) : Selection :=
  ⟨selection.first.withAbove top, selection.last.withAbove top⟩

theorem select?_withBelow {lines : List Line} {start stop : Nat} {selection : Selection}
    (selected : select? lines start stop = some selection) (bottom : List Line) :
    select? (lines ++ bottom) start stop = some (selection.withBelow bottom) := by
  rcases select?_eq_some_iff.mp selected with ⟨first, last, ordered⟩
  exact select?_eq_some_iff.mpr
    ⟨caret?_withBelow first bottom, caret?_withBelow last bottom, ordered⟩

theorem select?_withAbove {lines : List Line} {start stop : Nat} {selection : Selection}
    (selected : select? lines start stop = some selection) (top : List Line) :
    select? (top ++ lines) (extent top + start) (extent top + stop) =
      some (selection.withAbove top) := by
  rcases select?_eq_some_iff.mp selected with ⟨first, last, ordered⟩
  exact select?_eq_some_iff.mpr ⟨caret?_withAbove first top, caret?_withAbove last top,
    Nat.add_le_add_left ordered _⟩

/-!
A replay reads the selected lines, the columns in them and whether they are the
same line. None of these depends on the lines around.
-/

theorem replay_withBelow (selection : Selection) (bottom : List Line) (carry : Bool)
    (inserted : Text) :
    (selection.withBelow bottom).replay carry inserted = selection.replay carry inserted :=
  rfl

theorem edited_withBelow (selection : Selection) (bottom : List Line) (carry : Bool)
    (inserted : Text) :
    (selection.withBelow bottom).edited carry inserted = selection.edited carry inserted :=
  rfl

theorem withinLine_withAbove (selection : Selection) (top : List Line) :
    (selection.withAbove top).withinLine = selection.withinLine := by
  rw [Bool.eq_iff_iff]
  simp [withinLine, withAbove, Caret.withAbove, Caret.position]

theorem replay_withAbove (selection : Selection) (top : List Line) (carry : Bool)
    (inserted : Text) :
    (selection.withAbove top).replay carry inserted = selection.replay carry inserted := by
  have joined : (selection.withAbove top).joined = selection.joined := by
    rw [Selection.joined, withinLine_withAbove]
    rfl
  rw [replay, joined]
  rfl

theorem edited_withAbove (selection : Selection) (top : List Line) (carry : Bool)
    (inserted : Text) :
    (selection.withAbove top).edited carry inserted = selection.edited carry inserted := by
  rw [edited, replay_withAbove]
  rfl

end Selection

/-!
## Edits in a part of a document

Lines below those that an edit can reach stay as they are. Lines above them only shift the
edit.
-/

namespace Edit

/-- The same edit, further on in the text. -/
def shift (distance : Nat) (e : Edit) : Edit :=
  { e with start := distance + e.start, stop := distance + e.stop }

/-- The edit as it reads once another has been applied that lies before it. -/
def after (later earlier : Edit) : Edit :=
  { later with
    start := later.start + earlier.insertedLength - earlier.deletedLength
    stop := later.stop + earlier.insertedLength - earlier.deletedLength }

theorem isNoop_shift (distance : Nat) (e : Edit) : (e.shift distance).isNoop = e.isNoop := by
  rw [Bool.eq_iff_iff, isNoop_iff, isNoop_iff, shift, Nat.add_left_cancel_iff]

end Edit

namespace Document

def withBelow (bottom : List Line) (d : Document) : Document :=
  { d with lines := d.lines ++ bottom }

def withAbove (top : List Line) (d : Document) : Document :=
  { d with lines := top ++ d.lines }

theorem replace_withBelow (d : Document) (selection : Selection) (bottom : List Line)
    (inserted : Text) :
    (d.withBelow bottom).replace (selection.withBelow bottom) inserted =
      (d.replace selection inserted).map (withBelow bottom) := by
  apply Outcome.ext
  · show _ = withBelow bottom (d.replace selection inserted).document
    rw [document_replace, document_replace, selection.edited_withBelow]
    simp [splice, withBelow, Selection.withBelow, Caret.withBelow]
  · exact error_replace_congr rfl (selection.replay_withBelow bottom _ _)

theorem replace_withAbove (d : Document) (selection : Selection) (top : List Line)
    (inserted : Text) :
    (d.withAbove top).replace (selection.withAbove top) inserted =
      (d.replace selection inserted).map (withAbove top) := by
  apply Outcome.ext
  · show _ = withAbove top (d.replace selection inserted).document
    rw [document_replace, document_replace, selection.edited_withAbove]
    simp [splice, withAbove, Selection.withAbove, Caret.withAbove]
  · exact error_replace_congr rfl (selection.replay_withAbove top _ _)

/-- What stands below the lines that an edit can reach makes no difference to it. -/
theorem edit_withBelow {d : Document} (sound : d.Sound) {e : Edit} (ordered : e.start ≤ e.stop)
    (bound : e.stop ≤ d.length) (bottom : List Line) :
    (d.withBelow bottom).edit e = (d.edit e).map (withBelow bottom) := by
  rcases (exists_select?_iff sound.nonempty).mpr ⟨ordered, bound⟩ with ⟨selection, selected⟩
  have wider : select? (d.withBelow bottom).lines e.start e.stop =
      some (selection.withBelow bottom) := Selection.select?_withBelow selected bottom
  cases change : e.isNoop with
  | true =>
      rw [edit_of_noop selected change, edit_of_noop wider change]
      rfl
  | false =>
      rw [edit_of_selected selected change, edit_of_selected wider change, replace_withBelow]

theorem edit_withAbove {d : Document} (sound : d.Sound) {e : Edit} (ordered : e.start ≤ e.stop)
    (bound : e.stop ≤ d.length) (top : List Line) :
    (d.withAbove top).edit (e.shift (extent top)) = (d.edit e).map (withAbove top) := by
  rcases (exists_select?_iff sound.nonempty).mpr ⟨ordered, bound⟩ with ⟨selection, selected⟩
  have wider : select? (d.withAbove top).lines (e.shift (extent top)).start
      (e.shift (extent top)).stop = some (selection.withAbove top) :=
    Selection.select?_withAbove selected top
  cases change : e.isNoop with
  | true =>
      rw [edit_of_noop selected change, edit_of_noop wider (by rw [Edit.isNoop_shift, change])]
      rfl
  | false =>
      rw [edit_of_selected selected change,
        edit_of_selected wider (by rw [Edit.isNoop_shift, change])]
      exact replace_withAbove d selection top e.inserted

theorem withBelow_lines {top bottom : Document} (settings : top.settings = bottom.settings) :
    top.withBelow bottom.lines = bottom.withAbove top.lines := by
  rw [withBelow, withAbove, settings]

/-- The error of an edit in range is that of its replay. -/
theorem tiling_of_error_edit {d : Document} (sound : d.Sound) {e : Edit}
    (ordered : e.start ≤ e.stop) (bound : e.stop ≤ d.length) {cause : DocumentError}
    (failed : (d.edit e).error = some cause) : ∃ inner, cause = .tiling inner := by
  rcases (exists_select?_iff sound.nonempty).mpr ⟨ordered, bound⟩ with ⟨selection, selected⟩
  cases change : e.isNoop with
  | true =>
      rw [edit_of_noop selected change] at failed
      cases failed
  | false =>
      rw [edit_of_selected selected change] at failed
      exact tiling_of_error_replace failed

/-!
## Taking a document apart
-/

theorem exists_parts {d : Document} (sound : d.Sound) {offset later : Nat}
    (apart : '\n' ∈ (d.text.take later).drop offset) :
    ∃ top bottom : Document, top.Sound ∧ bottom.Sound ∧ top.settings = bottom.settings ∧
      d = top.withBelow bottom.lines ∧ offset ≤ top.length ∧ extent top.lines ≤ later ∧
      d.length = extent top.lines + bottom.length := by
  rw [List.drop_take] at apart
  have reach : offset ≤ d.length := by
    apply Nat.le_of_not_lt
    intro past
    rw [List.drop_of_length_le (Nat.le_of_lt past), List.take_nil] at apart
    cases apart
  rcases (exists_caret?_iff sound.nonempty).mpr reach with ⟨caret, resolved⟩
  rcases caret?_eq_some_iff.mp resolved with ⟨shape, _, count⟩
  have line := sound.line _ (line_mem_of_caret? resolved)
  have text := caret.before_append_after
  have upper : caret.above ++ [caret.line] ≠ [] := by simp
  have size : extent (caret.above ++ [caret.line]) = offset + caret.after.length + 1 := by
    rw [extent_append, ← count, Caret.prior, List.length_append, extent, extent,
      List.flatMap_singleton, ← text, List.length_append, List.length_append]
    simp [Nat.add_assoc]
  -- The line of the caret has no newline, so one before `later` stands at its end or further on.
  rw [Document.text, ← rest_eq_drop resolved] at apart
  have ordinary : '\n' ∉ caret.after :=
    fun member => line.unbroken (List.mem_of_mem_drop member)
  have beyond : caret.after.length < later - offset := by
    apply Nat.lt_of_not_le
    intro short
    rw [Caret.rest, List.take_append_of_le_length short] at apart
    exact ordinary (List.mem_of_mem_take apart)
  have lower : caret.below ≠ [] := by
    intro vacant
    rw [Caret.rest, vacant, List.flatMap_nil, List.append_nil] at apart
    exact ordinary (List.mem_of_mem_take apart)
  have lines : d.lines = (caret.above ++ [caret.line]) ++ caret.below := by
    rw [shape, List.append_assoc]
    rfl
  have total := extent_eq sound.nonempty
  rw [lines, extent_append, extent_eq lower, ← lines] at total
  refine ⟨⟨caret.above ++ [caret.line], d.settings⟩, ⟨caret.below, d.settings⟩,
    ⟨upper, ?_⟩, ⟨lower, ?_⟩, rfl, ?_, ?_, ?_, ?_⟩
  · intro other member
    exact sound.line other (by rw [lines]; exact List.mem_append_left _ member)
  · intro other member
    exact sound.line other (by rw [lines]; exact List.mem_append_right _ member)
  · rw [withBelow, ← lines]
  · have fits := extent_eq upper
    rw [size] at fits
    show offset ≤ (Text.ofLines ((caret.above ++ [caret.line]).map Line.text)).length
    omega
  · show extent (caret.above ++ [caret.line]) ≤ later
    omega
  · show (Text.ofLines (d.lines.map Line.text)).length = extent (caret.above ++ [caret.line]) +
      (Text.ofLines (caret.below.map Line.text)).length
    omega

/-!
## Two edits in either order

Two edits with a newline between them can be applied in either order. Both orders lead to the
same document, and each edit reports the same in both: nothing, or that the tilings could not
follow it.
-/

theorem edit_comm {d : Document} (reachable : d.Reachable) {e f : Edit}
    (first : e.start ≤ e.stop) (apart : '\n' ∈ (d.text.take f.start).drop e.stop)
    (second : f.start ≤ f.stop) (bound : f.stop ≤ d.length) :
    ((d.edit e).document.edit (f.after e)).document =
        ((d.edit f).document.edit e).document ∧
      ((d.edit f).document.edit e).error = (d.edit e).error ∧
      ((d.edit e).document.edit (f.after e)).error = (d.edit f).error ∧
      (∀ cause, (d.edit e).error = some cause → ∃ inner, cause = .tiling inner) ∧
      ∀ cause, (d.edit f).error = some cause → ∃ inner, cause = .tiling inner := by
  rcases exists_parts reachable.sound apart with
    ⟨top, bottom, upper, lower, settings, whole, left, right, total⟩
  -- The second edit as the lower part has it.
  let inner : Edit := ⟨f.start - extent top.lines, f.stop - extent top.lines, f.inserted⟩
  have ordered : inner.start ≤ inner.stop := Nat.sub_le_sub_right second _
  have inside : inner.stop ≤ bottom.length := by
    show f.stop - extent top.lines ≤ bottom.length
    omega
  have further : inner.shift (extent top.lines) = f := by
    show Edit.mk _ _ _ = f
    rw [Nat.add_sub_cancel' right, Nat.add_sub_cancel' (Nat.le_trans right second)]
  have moved : inner.shift (extent (top.edit e).document.lines) = f.after e := by
    have size := length_edit upper first left
    have before := extent_eq upper.nonempty
    have after := extent_eq (sound_edit upper e).nonempty
    rw [length, text, length, text] at size
    have offset : ∀ n, extent top.lines ≤ n →
        extent (top.edit e).document.lines + (n - extent top.lines) =
          n + e.insertedLength - e.deletedLength := by
      intro n beyond
      omega
    show Edit.mk _ _ _ = Edit.mk _ _ _
    rw [offset _ right, offset _ (Nat.le_trans right second)]
  -- Either edit in its own part, before the other and after it.
  have upperFirst : d.edit e = (top.edit e).map (withBelow bottom.lines) := by
    rw [whole]
    exact edit_withBelow upper first left bottom.lines
  have lowerFirst : d.edit f = (bottom.edit inner).map (withAbove top.lines) := by
    have part := edit_withAbove lower ordered inside top.lines
    rw [further, ← withBelow_lines settings, ← whole] at part
    exact part
  have lowerSecond : (d.edit e).document.edit (f.after e) =
      (bottom.edit inner).map (withAbove (top.edit e).document.lines) := by
    have part := edit_withAbove lower ordered inside (top.edit e).document.lines
    rw [moved, ← withBelow_lines (by rw [settings_edit, settings])] at part
    rw [upperFirst]
    exact part
  have upperSecond : (d.edit f).document.edit e =
      (top.edit e).map (withBelow (bottom.edit inner).document.lines) := by
    have part := edit_withBelow upper first left (bottom.edit inner).document.lines
    rw [withBelow_lines (by rw [settings_edit, settings])] at part
    rw [lowerFirst]
    exact part
  refine ⟨?_, ?_, ?_, ?_, ?_⟩
  · rw [lowerSecond, upperSecond]
    exact (withBelow_lines (by rw [settings_edit, settings_edit, settings])).symm
  · rw [upperSecond, upperFirst]
    rfl
  · rw [lowerSecond, lowerFirst]
    rfl
  · intro cause failed
    rw [upperFirst] at failed
    exact tiling_of_error_edit upper first left failed
  · intro cause failed
    rw [lowerFirst] at failed
    exact tiling_of_error_edit lower ordered inside failed

/-- An edit that reports an error, and one below it that widens a known line. -/
theorem edit_comm_beside_clash :
    let e := Edit.delete 3 4
    let f := Edit.insert 7 ['z']
    f.after e = .insert 6 ['z'] ∧
      ((clashAbove.edit e).document.edit (f.after e)).document =
        ((clashAbove.edit f).document.edit e).document ∧
      ((clashAbove.edit f).document.edit e).error = some (.tiling (.unordered 1)) ∧
      ((clashAbove.edit f).document.edit e).document.lines[2]? =
        some ⟨['y', 'z'], some ⟨#[⟨2, 9⟩], by decide⟩⟩ := by
  have run : clashAbove.Reachable := reachable_after (.ofText _ _) _
  have error : (clashAbove.edit (.delete 3 4)).error = some (.tiling (.unordered 1)) := by
    decide +kernel
  rcases edit_comm (e := .delete 3 4) (f := .insert 7 ['z']) run (by decide) (by decide +kernel)
    (by decide) (by decide +kernel) with ⟨same, reported, _⟩
  exact ⟨by decide, same, reported.trans error, by decide +kernel⟩

end Document

end TiledText
