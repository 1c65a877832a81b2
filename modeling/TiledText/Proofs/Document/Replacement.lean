import TiledText.Proofs.Document.Remainder

/-!
# Replacing in two steps

Text is replaced by deleting it and inserting other text in its place. After the
deletion the caret stands in the line that is left, and to the replay of the
insertion it makes no difference whether that line has been stored in between:
the state was joined in the same way, and it covers the line.

If the selected lines could not be joined, what is left is unknown, and so is
every line that either way puts there.
-/

namespace TiledText

/-!
## An unknown line
-/

theorem distribute_none (carry : Bool) (column : UInt32) (pieces : List Text) :
    distribute carry column none pieces = .ok (List.replicate pieces.length none) := by
  cases pieces with
  | nil =>
      rfl
  | cons first rest =>
      cases rest with
      | nil =>
          rfl
      | cons second more =>
          rcases exists_middle first second more with ⟨middle, last, same⟩
          have carried : carried carry column none = .ok none := by
            cases carry with
            | false =>
                rfl
            | true =>
                rfl
          rw [same]
          refine distribute_many.mpr ⟨none, none, none, none, carried, rfl, rfl, rfl, ?_⟩
          rw [List.length_cons, List.length_append, List.length_singleton,
            List.replicate_succ, List.replicate_succ']

namespace Selection

theorem Sound.edited_of_unknown {selection : Selection} (sound : selection.Sound)
    (unknown : selection.remainder.state = none) (carry : Bool) (inserted : Text) :
    selection.edited carry inserted = (selection.texts inserted).map Line.fresh := by
  unfold edited
  cases remains : selection.joined with
  | error cause =>
      rw [replay_of_error remains]
  | ok state =>
      rw [remainder_of_joined remains] at unknown
      cases unknown
      rw [replay_of_joined remains, distribute_none, ← length_texts sound]
      exact zipWith_settle_unknown _

/-!
## The caret after a deletion
-/

/-- The empty selection in the remainder, where the deleted text was. -/
def collapsed (selection : Selection) : Selection :=
  let caret : Caret :=
    ⟨selection.first.above, selection.remainder, selection.first.before.length,
      selection.last.below⟩
  ⟨caret, caret⟩

theorem before_collapsed (selection : Selection) :
    selection.collapsed.first.before = selection.first.before := by
  show selection.remainder.text.take selection.first.before.length = _
  rw [text_remainder, List.take_left]

theorem after_collapsed (selection : Selection) :
    selection.collapsed.last.after = selection.last.after := by
  show selection.remainder.text.drop selection.first.before.length = _
  rw [text_remainder, List.drop_left]

theorem position_collapsed (selection : Selection) :
    selection.collapsed.first.position = selection.first.position := by
  rw [Caret.position, before_collapsed]
  rfl

theorem texts_collapsed (selection : Selection) (inserted : Text) :
    selection.collapsed.texts inserted = selection.texts inserted := by
  rw [texts, texts, before_collapsed, after_collapsed]

theorem Sound.collapsed {selection : Selection} (sound : selection.Sound) :
    selection.collapsed.Sound where
  lies := .inside (beq_self_eq_true _) rfl rfl rfl (Nat.le_refl _)
  first := sound.remainder
  last := sound.remainder

theorem Sound.joined_collapsed {selection : Selection} (sound : selection.Sound) :
    selection.collapsed.joined = .ok selection.remainder.state :=
  sound.collapsed.joined_empty

theorem Sound.replay_collapsed {selection : Selection} (sound : selection.Sound)
    {state : LineState} (remains : selection.joined = .ok state) (carry : Bool)
    (inserted : Text) :
    selection.collapsed.replay carry inserted = selection.replay carry inserted := by
  rw [replay_of_joined sound.joined_collapsed, replay_of_joined remains, position_collapsed,
    remainder_of_joined remains]

theorem Sound.edited_collapsed {selection : Selection} (sound : selection.Sound) (carry : Bool)
    (inserted : Text) :
    selection.collapsed.edited carry inserted = selection.edited carry inserted := by
  cases known : selection.remainder.state with
  | some v =>
      rw [edited, edited, sound.replay_collapsed (joined_of_state_remainder known),
        texts_collapsed]
  | none =>
      have unknown : selection.collapsed.remainder.state = none := by
        rw [remainder_of_joined sound.joined_collapsed]
        exact known
      rw [sound.edited_of_unknown known, sound.collapsed.edited_of_unknown unknown,
        texts_collapsed]

end Selection

/-!
## Two ways to replace

If a deletion is no error, inserting text in the place of what was deleted has the outcome of
the replacement, with the same document and the same error. With recovery a deletion is never
an error.
-/

namespace Document

theorem select?_collapsed {d : Document} (sound : d.Sound) {start stop : Nat}
    {selection : Selection} (selected : select? d.lines start stop = some selection) :
    select? (d.replace selection []).document.lines start start = some selection.collapsed := by
  rcases select?_eq_some_iff.mp selected with ⟨first, _, _⟩
  rcases caret?_eq_some_iff.mp first with ⟨_, _, count⟩
  have resolved : caret? (d.replace selection []).document.lines start =
      some selection.collapsed.first := by
    apply caret?_eq_some_iff.mpr
    refine ⟨lines_replace_nil (sound_of_select? sound selected), ?_, ?_⟩
    · show selection.first.before.length ≤ selection.remainder.text.length
      rw [Selection.text_remainder, List.length_append]
      exact Nat.le_add_right _ _
    · rw [Caret.prior, Selection.before_collapsed]
      exact count
  exact select?_eq_some_iff.mpr ⟨resolved, resolved, Nat.le_refl _⟩

theorem error_replace_congr {d d' : Document} {selection selection' : Selection}
    {inserted : Text} (settings : d'.settings = d.settings)
    (replay : selection'.replay d.settings.carrySplitTokens inserted =
      selection.replay d.settings.carrySplitTokens inserted) :
    (d'.replace selection' inserted).error = (d.replace selection inserted).error := by
  unfold replace
  rw [settings, replay]
  cases selection.replay d.settings.carrySplitTokens inserted with
  | ok states =>
      rfl
  | error cause =>
      rfl

/-- If a deletion that could not join its lines is no error, the settings keep errors back. -/
theorem lenient_of_failed_deletion {d : Document} {selection : Selection} {cause : TilingError}
    (failed : selection.joined = .error cause)
    (deleted : (d.replace selection []).error = none) :
    d.settings.recoverFromErrors = true := by
  cases strict : d.settings.recoverFromErrors with
  | true =>
      rfl
  | false =>
      have replayed := Selection.replay_of_error failed d.settings.carrySplitTokens []
      rw [error_replace_of_error strict replayed] at deleted
      cases deleted

theorem replace_collapsed {d : Document} {selection : Selection} (sound : selection.Sound)
    (deleted : (d.replace selection []).error = none) (inserted : Text) :
    (d.replace selection []).document.replace selection.collapsed inserted =
      d.replace selection inserted := by
  have settings := settings_replace d selection []
  apply Outcome.ext
  · rw [document_replace, document_replace d selection inserted, settings,
      sound.edited_collapsed, splice, splice, settings]
    rfl
  · cases remains : selection.joined with
    | ok state =>
        exact error_replace_congr settings (sound.replay_collapsed remains _ _)
    | error cause =>
        have lenient := lenient_of_failed_deletion remains deleted
        rw [error_replace_of_recover lenient,
          error_replace_of_recover (by rw [settings]; exact lenient)]

theorem edit_replace_eq_insert {d : Document} (reachable : d.Reachable) {start stop : Nat}
    (ordered : start ≤ stop) (bound : stop ≤ d.length) (inserted : Text) :
    ((d.edit (.delete start stop)).error = none →
        d.edit (.replace start stop inserted) =
          (d.edit (.delete start stop)).document.edit (.insert start inserted)) ∧
      (d.settings.recoverFromErrors = true → (d.edit (.delete start stop)).error = none) := by
  have sound := reachable.sound
  rcases (exists_select?_iff sound.nonempty).mpr ⟨ordered, bound⟩ with ⟨selection, selected⟩
  have inner := sound_of_select? sound selected
  cases still : (Edit.delete start stop).isNoop with
  | true =>
      -- Nothing is deleted, and the replacement is an insertion already.
      rcases Edit.isNoop_iff.mp still with ⟨same, _⟩
      have stopped : stop = start := same.symm
      rw [edit_of_noop selected still, stopped]
      exact ⟨fun _ => rfl, fun _ => rfl⟩
  | false =>
      have apart : start ≠ stop := by
        intro same
        rw [Edit.isNoop_iff.mpr ⟨same, rfl⟩] at still
        cases still
      have change : (Edit.replace start stop inserted).isNoop = false := by
        rw [Bool.eq_false_iff]
        intro noop
        exact apart (Edit.isNoop_iff.mp noop).1
      have deletion : d.edit (.delete start stop) = d.replace selection [] :=
        edit_of_selected selected still
      have replacement : d.edit (.replace start stop inserted) = d.replace selection inserted :=
        edit_of_selected selected change
      rw [deletion, replacement]
      constructor
      · intro deleted
        have later := select?_collapsed sound selected
        cases nothing : (Edit.insert start inserted).isNoop with
        | true =>
            have empty : inserted = [] := (Edit.isNoop_iff.mp nothing).2
            rw [edit_of_noop later nothing, empty]
            exact Outcome.ext rfl deleted
        | false =>
            rw [edit_of_selected later nothing]
            exact (replace_collapsed inner deleted inserted).symm
      · intro lenient
        exact error_replace_of_recover lenient selection []

def lenientClash : Document :=
  (ofText ['a', '\n', 'b'] ⟨true, true⟩).after [.set 0 [⟨1, 1⟩], .set 1 [⟨0, 5⟩, ⟨1, 6⟩]]

/-- Both ways of replacing forget the lines that could not be joined. -/
theorem edit_replace_across_clash :
    (∃ selection, select? lenientClash.lines 1 2 = some selection ∧ selection.Clashes) ∧
      lenientClash.edit (.replace 1 2 ['x', '\n']) =
        (lenientClash.edit (.delete 1 2)).document.edit (.insert 1 ['x', '\n']) ∧
      (lenientClash.edit (.replace 1 2 ['x', '\n'])).document.pending = [0, 1] := by
  have run : lenientClash.Reachable := reachable_after (.ofText _ _) _
  have ordered : 1 ≤ 2 := by decide
  have bound : 2 ≤ lenientClash.length := by decide +kernel
  have law := edit_replace_eq_insert run ordered bound ['x', '\n']
  have clash : ∀ selection ∈ select? lenientClash.lines 1 2, selection.Clashes := by
    decide +kernel
  rcases (exists_select?_iff run.sound.nonempty).mpr ⟨ordered, bound⟩ with
    ⟨selection, selected⟩
  exact ⟨⟨selection, selected, clash selection selected⟩, law.1 (law.2 (by decide +kernel)),
    by decide +kernel⟩

end Document
end TiledText
