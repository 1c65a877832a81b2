import TiledText.Proofs.Document.Soundness
import TiledText.Proofs.Success

/-!
# Errors of an edit

The tilings of a reachable document are never out of step with its text, so an
edit for which there is room reports no offset and no overflow. What it can
report is a clash: two known lines are joined, and the second begins with a
hairline. The tiling that `Tiling.append` would have to return has two tokens
that stop at the same place.
-/

namespace TiledText

namespace Document

/-!
## Room
-/

theorem width_prior_add_rest_le {d : Document} {start stop : Nat} {selection : Selection}
    (selected : select? d.lines start stop = some selection) :
    selection.first.prior.width + selection.last.rest.width ≤ d.text.width := by
  rcases select?_eq_some_iff.mp selected with ⟨first, last, ordered⟩
  rw [prior_eq_take first, rest_eq_drop last]
  calc
    Text.width (d.text.take start) + Text.width (d.text.drop stop)
        ≤ Text.width (d.text.take stop) + Text.width (d.text.drop stop) :=
      Nat.add_le_add_right (Text.width_take_le d.text ordered) _
    _ = d.text.width := Text.width_take_add_width_drop d.text stop

theorem roomy_of_select? {d : Document} {start stop : Nat} {selection : Selection}
    (selected : select? d.lines start stop = some selection) {inserted : Text}
    (room : d.text.width + inserted.width < UInt32.size) : selection.Roomy inserted := by
  have around := width_prior_add_rest_le selected
  rw [Caret.prior, Caret.rest, Text.width_append, Text.width_append] at around
  rw [Selection.Roomy]
  omega

/-!
## The error of an edit

Without recovery, an edit for which there is room succeeds exactly when the lines that it joins
do not clash, and otherwise it reports tokens that are out of order.
-/

theorem error_replace_of_ok {d : Document} {selection : Selection} {inserted : Text}
    {states : List LineState}
    (replayed : selection.replay d.settings.carrySplitTokens inserted = .ok states) :
    (d.replace selection inserted).error = none := by
  unfold replace
  rw [replayed]

theorem error_replace_of_error {d : Document} (strict : d.settings.recoverFromErrors = false)
    {selection : Selection} {inserted : Text} {cause : TilingError}
    (failed : selection.replay d.settings.carrySplitTokens inserted = .error cause) :
    (d.replace selection inserted).error = some (.tiling cause) := by
  unfold replace
  rw [failed]
  simp [strict]

theorem error_replace_of_recover {d : Document} (lenient : d.settings.recoverFromErrors = true)
    (selection : Selection) (inserted : Text) : (d.replace selection inserted).error = none := by
  unfold replace
  cases selection.replay d.settings.carrySplitTokens inserted with
  | ok states =>
      rfl
  | error cause =>
      simp [lenient]

theorem tiling_of_error_replace {d : Document} {selection : Selection} {inserted : Text}
    {cause : DocumentError} (failed : (d.replace selection inserted).error = some cause) :
    ∃ inner, cause = .tiling inner := by
  rw [replace] at failed
  split at failed
  case h_1 states _ =>
    cases failed
  case h_2 inner _ =>
    split at failed
    case isTrue _ =>
      cases failed
    case isFalse _ =>
      exact ⟨inner, (Option.some.inj failed).symm⟩

theorem not_clashes_of_noop {d : Document} {e : Edit} {selection : Selection}
    (selected : select? d.lines e.start e.stop = some selection) (noop : e.isNoop = true) :
    ¬ selection.Clashes := by
  intro clash
  rcases select?_eq_some_iff.mp selected with ⟨first, last, _⟩
  rw [(Edit.isNoop_iff.mp noop).1, last] at first
  have across := clash.1
  rw [Selection.withinLine, Option.some.inj first] at across
  simp at across

theorem error_edit_eq_none_iff {d : Document} (reachable : d.Reachable)
    (strict : d.settings.recoverFromErrors = false) {e : Edit} (ordered : e.start ≤ e.stop)
    (bound : e.stop ≤ d.length) (room : d.text.width + e.inserted.width < UInt32.size) :
    ∃ selection, select? d.lines e.start e.stop = some selection ∧
      ((d.edit e).error = none ↔ ¬ selection.Clashes) ∧
      ∀ cause, (d.edit e).error = some cause → ∃ index, cause = .tiling (.unordered index) := by
  have sound := reachable.sound
  rcases (exists_select?_iff sound.nonempty).mpr ⟨ordered, bound⟩ with ⟨selection, selected⟩
  refine ⟨selection, selected, ?_⟩
  cases change : e.isNoop with
  | true =>
      rw [edit_of_noop selected change]
      simp [not_clashes_of_noop selected change]
  | false =>
      have inner := sound_of_select? sound selected
      have space := roomy_of_select? selected room
      rw [edit_of_selected selected change]
      rcases inner.replay_eq space d.settings.carrySplitTokens with
        ⟨calm, states, replayed⟩ | ⟨clash, index, failed⟩
      · rw [error_replace_of_ok replayed]
        simp [calm]
      · rw [error_replace_of_error strict failed]
        simp [clash]

/-- Two known lines. The second begins with a hairline. -/
def hairlineBelow : Document :=
  (ofText ['a', '\n', 'b'] ⟨true, false⟩).after [.set 0 [⟨1, 1⟩], .set 1 [⟨0, 5⟩, ⟨1, 6⟩]]

theorem reachable_hairlineBelow : hairlineBelow.Reachable :=
  reachable_after (.ofText _ _) _

/-- If the hairline goes with the rest of its line, it does not clash. -/
theorem error_edit_of_whole_line : (hairlineBelow.edit (.delete 1 3)).error = none := by
  have calm : ∀ selection ∈ select? hairlineBelow.lines 1 3, ¬ selection.Clashes := by
    decide +kernel
  have law := error_edit_eq_none_iff (e := .delete 1 3) reachable_hairlineBelow
    (by decide +kernel) (by decide) (by decide +kernel) (by decide +kernel)
  rcases law with ⟨selection, selected, succeeds, _⟩
  exact succeeds.mpr (calm selection selected)

/-- Joining the two lines is reported, though each of them was accepted. -/
theorem error_edit_of_clash :
    ∃ (d : Document) (e : Edit), d.Reachable ∧ d.settings.recoverFromErrors = false ∧
      e.start ≤ e.stop ∧ e.stop ≤ d.length ∧ d.text.width + e.inserted.width < UInt32.size ∧
      (d.edit e).error = some (.tiling (.unordered 1)) :=
  ⟨hairlineBelow, .delete 1 2, reachable_hairlineBelow, by decide +kernel, by decide,
    by decide +kernel, by decide +kernel, by decide +kernel⟩

end Document
end TiledText
