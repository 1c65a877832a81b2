import TiledText.Proofs.Document.Errors

/-!
# What a deletion leaves

A deletion leaves one line in the place of the selected ones. Its text is what
stood before and after the selection, and its state is the joined state of the
selected lines, or unknown if these could not be joined. A joined tiling always
covers what is left, so no state is lost when the line is settled.
-/

namespace TiledText

/-!
## Changes that change nothing
-/

namespace Tiling

theorem insert_zero {t : Tiling} {offset : UInt32} (inside : offset ≤ t.length) :
    t.insert offset 0 = .ok t := by
  unfold insert
  rw [if_neg (UInt32.not_lt.mpr inside), if_pos rfl]
  split
  · rfl
  · rfl

end Tiling

theorem LineState.through_eq_self {change : Tiling → Except TilingError Tiling}
    {state : LineState} (still : ∀ t, state = some t → change t = .ok t) :
    state.through change = .ok state := by
  cases state with
  | none =>
      rfl
  | some t =>
      rw [through, still t rfl]
      rfl

theorem Line.settle_of_covered {text : Text} {state : LineState}
    (covered : ∀ t, state = some t → t.length.toNat = text.width) :
    settle text state = ⟨text, state⟩ := by
  cases state with
  | none =>
      rfl
  | some t =>
      have covers : covers text t = true := beq_iff_eq.mpr (covered t rfl)
      rw [settle, Option.filter_some, if_pos covers]

/-!
## The line that is left

A deletion leaves one line in the place of those that it reaches. It is known only if they
could be joined.
-/

namespace Selection

/-- The line that takes the place of the selected ones when the selected text is deleted. -/
def remainder (selection : Selection) : Line :=
  match selection.joined with
  | .ok state => ⟨selection.first.before ++ selection.last.after, state⟩
  | .error _ => .fresh (selection.first.before ++ selection.last.after)

theorem text_remainder (selection : Selection) :
    selection.remainder.text = selection.first.before ++ selection.last.after := by
  unfold remainder
  cases selection.joined with
  | ok state =>
      rfl
  | error cause =>
      rfl

theorem remainder_of_joined {selection : Selection} {state : LineState}
    (remains : selection.joined = .ok state) :
    selection.remainder = ⟨selection.first.before ++ selection.last.after, state⟩ := by
  rw [remainder, remains]

theorem remainder_of_error {selection : Selection} {cause : TilingError}
    (failed : selection.joined = .error cause) :
    selection.remainder = .fresh (selection.first.before ++ selection.last.after) := by
  rw [remainder, failed]

theorem joined_of_state_remainder {selection : Selection} {v : Tiling}
    (known : selection.remainder.state = some v) : selection.joined = .ok (some v) := by
  cases remains : selection.joined with
  | ok state =>
      rw [remainder_of_joined remains] at known
      rw [← known]
  | error cause =>
      rw [remainder_of_error remains] at known
      cases known

theorem Sound.joined_empty {caret : Caret} (sound : Sound ⟨caret, caret⟩) :
    joined ⟨caret, caret⟩ = .ok caret.line.state := by
  have within : withinLine ⟨caret, caret⟩ = true := beq_self_eq_true _
  rw [joined, if_pos within]
  apply LineState.through_eq_self
  intro j known
  exact Tiling.delete_self (Caret.column_le_length sound.first known)

theorem texts_nil {selection : Selection} (sound : selection.Sound) :
    selection.texts [] = [selection.first.before ++ selection.last.after] := by
  rw [texts_of_one sound (show Text.lines [] = [[]] from rfl), List.append_nil]

theorem Sound.replay_nil {selection : Selection} (sound : selection.Sound) (carry : Bool) :
    selection.replay carry [] = selection.joined.map fun state => [state] := by
  cases remains : selection.joined with
  | error cause =>
      rw [replay_of_error remains]
      rfl
  | ok state =>
      have still : state.insert selection.first.position.column (insertedWidth []) =
          .ok state := by
        apply LineState.through_eq_self
        intro j known
        rw [known] at remains
        exact Tiling.insert_zero (sound.column_le_length remains)
      rw [replay_of_joined remains]
      exact distribute_one.mpr ⟨state, still, rfl⟩

theorem Sound.edited_nil {selection : Selection} (sound : selection.Sound) (carry : Bool) :
    selection.edited carry [] = [selection.remainder] := by
  unfold edited
  rw [sound.replay_nil, texts_nil sound]
  cases remains : selection.joined with
  | error cause =>
      rw [remainder_of_error remains]
      rfl
  | ok state =>
      have settled : Line.settle (selection.first.before ++ selection.last.after) state =
          selection.remainder := by
        rw [remainder_of_joined remains]
        apply Line.settle_of_covered
        intro j known
        rw [known] at remains
        rw [sound.length_joined remains, Text.width_append]
      rw [← settled]
      rfl

theorem Sound.remainder {selection : Selection} (sound : selection.Sound) :
    selection.remainder.Sound := by
  have member : selection.remainder ∈ selection.edited false [] := by
    rw [sound.edited_nil]
    exact List.mem_singleton_self _
  exact Document.sound_of_mem_edited member

end Selection

namespace Document

theorem lines_replace_nil {d : Document} {selection : Selection} (sound : selection.Sound) :
    (d.replace selection []).document.lines =
      selection.first.above ++ selection.remainder :: selection.last.below := by
  rw [document_replace, sound.edited_nil, splice, List.append_assoc]
  rfl

end Document
end TiledText
