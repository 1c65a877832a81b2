import TiledText.Proofs.Document.Errors
import TiledText.Proofs.Document.Frame

/-!
# Recovery from errors

Recovery decides what is reported of an edit that the tilings could not follow. It
decides nothing else: two documents that differ only in this switch go through the same
commands side by side, with the same lines after each of them. Scripts are left out,
because a script stops at the first error and so goes further where errors are kept back.

An error is reported in one of two situations. Either the command has changed nothing, or
it was an edit that has changed the text, and then nothing is known of the lines that hold
what it inserted.
-/

namespace TiledText

namespace Command

def isScript : Command → Bool
  | .run _ => true
  | _ => false

/-- The errors of a command that recovery keeps back. -/
def excuses : Command → DocumentError → Bool
  | .edit _, .tiling _ => true
  | _, _ => false

end Command

namespace Document

def withRecovery (recover : Bool) (d : Document) : Document :=
  { d with settings := d.settings.withRecoverFromErrors recover }

theorem sound_withRecovery {d : Document} (sound : d.Sound) (recover : Bool) :
    (d.withRecovery recover).Sound :=
  ⟨sound.nonempty, sound.line⟩

/-!
## Documents side by side
-/

variable (recover : Bool)

theorem store_withRecovery (d : Document) (line : Nat) (t : Tiling) :
    (d.withRecovery recover).store line t = (d.store line t).map (withRecovery recover) :=
  store_map rfl rfl rfl rfl

theorem storeDecoded_withRecovery (d : Document) (line : Nat)
    (decoded : Except TilingError Tiling) :
    (d.withRecovery recover).storeDecoded line decoded =
      (d.storeDecoded line decoded).map (withRecovery recover) := by
  cases decoded with
  | error cause =>
      rfl
  | ok t =>
      exact store_withRecovery recover d line t

theorem clear_withRecovery (d : Document) (line : Nat) :
    (d.withRecovery recover).clear line = (d.clear line).map (withRecovery recover) :=
  clear_map rfl rfl

theorem document_edit_withRecovery (d : Document) (e : Edit) :
    ((d.withRecovery recover).edit e).document = (d.edit e).document.withRecovery recover := by
  have lines : (d.withRecovery recover).lines = d.lines := rfl
  cases selected : select? d.lines e.start e.stop with
  | none =>
      rw [edit_of_none selected, edit_of_none (lines ▸ selected)]
  | some selection =>
      cases change : e.isNoop with
      | true =>
          rw [edit_of_noop selected change, edit_of_noop (lines ▸ selected) change]
      | false =>
          rw [edit_of_selected selected change, edit_of_selected (lines ▸ selected) change,
            document_replace, document_replace]
          rfl

theorem perform_withRecovery (d : Document) {command : Command}
    (single : command.isScript = false) (stored : ∀ e, command ≠ .edit e) :
    (d.withRecovery recover).perform command = (d.perform command).map (withRecovery recover) := by
  cases command with
  | set line tokens =>
      exact Outcome.ofExcept_map (storeDecoded_withRecovery recover d line _)
  | restore line packed =>
      exact Outcome.ofExcept_map (storeDecoded_withRecovery recover d line _)
  | clear line =>
      exact Outcome.ofExcept_map (clear_withRecovery recover d line)
  | edit e =>
      exact absurd rfl (stored e)
  | run script =>
      cases single

theorem document_perform_withRecovery (d : Document) {command : Command}
    (single : command.isScript = false) :
    ((d.withRecovery recover).perform command).document =
      (d.perform command).document.withRecovery recover := by
  by_cases edits : ∃ e, command = .edit e
  · rcases edits with ⟨e, rfl⟩
    exact document_edit_withRecovery recover d e
  · rw [perform_withRecovery recover d single fun e same => edits ⟨e, same⟩]
    rfl

theorem after_withRecovery (d : Document) {commands : List Command}
    (single : ∀ command ∈ commands, command.isScript = false) :
    (d.withRecovery recover).after commands = (d.after commands).withRecovery recover := by
  induction commands generalizing d with
  | nil =>
      rfl
  | cons command rest ih =>
      have step := document_perform_withRecovery recover d (single command (List.mem_cons_self ..))
      show ((d.withRecovery recover).perform command).document.after rest = _
      rw [step]
      exact ih (d.perform command).document fun other member =>
        single other (List.mem_cons_of_mem _ member)

/-!
## What is reported
-/

theorem error_replace_lenient (d : Document) (selection : Selection) (inserted : Text) :
    ((d.withRecovery true).replace selection inserted).error = none :=
  error_replace_of_recover rfl selection inserted

theorem error_edit_lenient (d : Document) (e : Edit) :
    ((d.withRecovery true).edit e).error =
      ((d.withRecovery false).edit e).error.filter fun cause =>
        !(Command.edit e).excuses cause := by
  cases selected : select? d.lines e.start e.stop with
  | none =>
      rw [edit_of_none (d := d.withRecovery true) selected,
        edit_of_none (d := d.withRecovery false) selected]
      rfl
  | some selection =>
      cases change : e.isNoop with
      | true =>
          rw [edit_of_noop (d := d.withRecovery true) selected change,
            edit_of_noop (d := d.withRecovery false) selected change]
          rfl
      | false =>
          rw [edit_of_selected (d := d.withRecovery true) selected change,
            edit_of_selected (d := d.withRecovery false) selected change, error_replace_lenient]
          cases failed : ((d.withRecovery false).replace selection e.inserted).error with
          | none =>
              rfl
          | some cause =>
              rcases tiling_of_error_replace failed with ⟨inner, rfl⟩
              rfl

theorem error_perform_lenient (d : Document) {command : Command}
    (single : command.isScript = false) :
    ((d.withRecovery true).perform command).error =
      ((d.withRecovery false).perform command).error.filter fun cause =>
        !command.excuses cause := by
  by_cases edits : ∃ e, command = .edit e
  · rcases edits with ⟨e, rfl⟩
    exact error_edit_lenient d e
  · have stored : ∀ e, command ≠ .edit e := fun e same => edits ⟨e, same⟩
    have nothing : ∀ cause, command.excuses cause = false := by
      intro cause
      cases command with
      | edit e =>
          exact absurd rfl (stored e)
      | set | restore | clear | run =>
          rfl
    rw [perform_withRecovery true d single stored, perform_withRecovery false d single stored]
    show (d.perform command).error = (d.perform command).error.filter _
    cases (d.perform command).error with
    | none =>
        rfl
    | some cause =>
        rw [Option.filter_some, nothing]
        rfl

/-!
## What an error leaves

An edit fails before it changes anything, or after it has changed the text. In the second
case the replay has failed, and the new lines are fresh.
-/

theorem document_ofExcept_of_error {d : Document} {result : Except DocumentError Document}
    {cause : DocumentError} (failed : (Outcome.ofExcept d result).error = some cause) :
    (Outcome.ofExcept d result).document = d := by
  cases result with
  | error reported =>
      rfl
  | ok after =>
      cases failed

theorem document_replace_of_error {d : Document} {selection : Selection} {inserted : Text}
    {cause : DocumentError} (failed : (d.replace selection inserted).error = some cause) :
    (d.replace selection inserted).document =
      d.splice selection ((selection.texts inserted).map Line.fresh) := by
  cases replayed : selection.replay d.settings.carrySplitTokens inserted with
  | ok states =>
      rw [error_replace_of_ok replayed] at failed
      cases failed
  | error inner =>
      rw [document_replace, Selection.edited, replayed]

theorem failed_edit_cases {d : Document} {e : Edit} {cause : DocumentError}
    (failed : (d.edit e).error = some cause) :
    (cause = .editOutside e.start e.stop d.length ∧ (d.edit e).document = d) ∨
      ∃ selection inner, select? d.lines e.start e.stop = some selection ∧ cause = .tiling inner ∧
        (d.edit e).document = d.splice selection ((selection.texts e.inserted).map Line.fresh) := by
  cases selected : select? d.lines e.start e.stop with
  | none =>
      rw [edit_of_none selected] at failed ⊢
      exact Or.inl ⟨(Option.some.inj failed).symm, rfl⟩
  | some selection =>
      right
      cases change : e.isNoop with
      | true =>
          rw [edit_of_noop selected change] at failed
          cases failed
      | false =>
          rw [edit_of_selected selected change] at failed ⊢
          rcases tiling_of_error_replace failed with ⟨inner, reported⟩
          exact ⟨selection, inner, rfl, reported, document_replace_of_error failed⟩

/-- A command that reports an error has changed nothing, unless the error is one to excuse. -/
theorem document_perform_of_error {d : Document} {command : Command}
    (single : command.isScript = false) {cause : DocumentError}
    (failed : (d.perform command).error = some cause) (plain : command.excuses cause = false) :
    (d.perform command).document = d := by
  cases command with
  | set line tokens =>
      exact document_ofExcept_of_error failed
  | restore line packed =>
      exact document_ofExcept_of_error failed
  | clear line =>
      exact document_ofExcept_of_error failed
  | run script =>
      cases single
  | edit e =>
      rcases failed_edit_cases failed with ⟨_, same⟩ | ⟨_, inner, _, rfl, _⟩
      · exact same
      · cases plain

/--
The text has been edited, and nothing is known of the lines that hold the inserted text.
The lines above and below are as they were.
-/
structure Forgets (d : Document) (e : Edit) (after : Document) : Prop where
  text : after.text = d.text.take e.start ++ e.inserted ++ d.text.drop e.stop
  lines : ∃ above reached left below, d.lines = above ++ reached ++ below ∧
    after.lines = above ++ left ++ below ∧
    above.length = (d.text.take e.start).count '\n' ∧
    above.length + reached.length = (d.text.take e.stop).count '\n' + 1 ∧
    left.length = e.inserted.lines.length ∧ ∀ line ∈ left, line.state = none

theorem Sound.forgets_of_error {d : Document} (sound : d.Sound) {e : Edit} {cause : TilingError}
    (failed : (d.edit e).error = some (.tiling cause)) : d.Forgets e (d.edit e).document := by
  rcases failed_edit_cases failed with ⟨outside, _⟩ | ⟨selection, _, selected, _, document⟩
  · cases outside
  · rcases (exists_select?_iff sound.nonempty).mp ⟨selection, selected⟩ with ⟨ordered, bound⟩
    rcases select?_eq_some_iff.mp selected with ⟨first, last, _⟩
    rcases lines_eq_around selected with ⟨reached, shape, _, count⟩
    refine ⟨text_edit sound ordered bound, selection.first.above, reached,
      (selection.texts e.inserted).map Line.fresh, selection.last.below, shape,
      congrArg Document.lines document, (sound.count_take first).symm, ?_, ?_, ?_⟩
    · rw [count, sound.count_take last]
      rfl
    · rw [List.length_map, selection.length_texts (sound_of_select? sound selected)]
    · intro line member
      rcases List.mem_map.mp member with ⟨text, _, rfl⟩
      rfl

/-!
## Runs under both settings

Documents that differ only in whether they recover keep the same lines through any commands
that are not scripts. They report the same, except that recovery keeps back what an edit
reports of the tilings. After such a report the edit has been made and the lines that it wrote
are unknown, and after any other the document is as it was.
-/

theorem after_recovering {d : Document} (reachable : d.Reachable) {commands : List Command}
    (single : ∀ command ∈ commands, command.isScript = false) :
    let strict := (d.withRecovery false).after commands
    let lenient := (d.withRecovery true).after commands
    lenient = strict.withRecovery true ∧
      (∀ command : Command, command.isScript = false →
        (lenient.perform command).error =
          (strict.perform command).error.filter fun cause => !command.excuses cause) ∧
      (∀ e cause, (strict.edit e).error = some (.tiling cause) →
        strict.Forgets e (strict.edit e).document) ∧
      ∀ d' ∈ [strict, lenient], ∀ command : Command, command.isScript = false →
        ∀ cause, (d'.perform command).error = some cause → command.excuses cause = false →
          (d'.perform command).document = d' := by
  intro strict lenient
  have strictly : strict = (d.after commands).withRecovery false :=
    after_withRecovery false d single
  have leniently : lenient = (d.after commands).withRecovery true :=
    after_withRecovery true d single
  have sound : strict.Sound := by
    rw [strictly]
    exact sound_withRecovery (reachable_after reachable commands).sound false
  refine ⟨?_, ?_, ?_, ?_⟩
  · rw [strictly, leniently]
    rfl
  · intro command one
    rw [strictly, leniently]
    exact error_perform_lenient (d.after commands) one
  · intro e cause failed
    exact sound.forgets_of_error failed
  · intro d' _ command one cause failed plain
    exact document_perform_of_error one failed plain

/-- The one document reports a clash that the other keeps back. -/
theorem after_recovering_at_clash :
    let strict := (clashAbove.withRecovery false).after [.set 0 [⟨1, 4⟩]]
    let lenient := (clashAbove.withRecovery true).after [.set 0 [⟨1, 4⟩]]
    let e := Edit.replace 3 4 ['p', '\n', 'q']
    lenient.lines = strict.lines ∧ (strict.edit e).error = some (.tiling (.unordered 1)) ∧
      (lenient.edit e).error = none ∧ strict.Forgets e (strict.edit e).document ∧
      (strict.edit e).document.pending = [1, 2] := by
  intro strict lenient e
  have run : clashAbove.Reachable := reachable_after (.ofText _ _) _
  have single : ∀ command ∈ [Command.set 0 [⟨1, 4⟩]], command.isScript = false := by decide
  have reported : (strict.edit e).error = some (.tiling (.unordered 1)) := by decide +kernel
  rcases after_recovering run single with ⟨same, errors, forgets, _⟩
  have lines : lenient.lines = (strict.withRecovery true).lines := congrArg Document.lines same
  have excused := errors (.edit e) rfl
  rw [show (strict.perform (.edit e)).error = some (.tiling (.unordered 1)) from reported]
    at excused
  exact ⟨lines, reported, excused, forgets e _ reported, by decide +kernel⟩

end Document
end TiledText
