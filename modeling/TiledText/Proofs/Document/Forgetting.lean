import TiledText.Proofs.Document.Errors
import TiledText.Proofs.Document.Replacement
import TiledText.Proofs.LessKnown

/-!
# Forgetting

Two documents run side by side. They begin with the same text and take the same
commands, but the first may carry less at a split, and its lines may be forgotten
in between. Both recover from errors. As long as there is room, the first has less
knowledge of the same lines throughout: an edit that it can follow is one that the
second follows as well, and where it cannot its lines are unknown.
-/

namespace TiledText

namespace Selection

theorem LessKnown.texts {less more : Selection} (selections : less.LessKnown more)
    (inserted : Text) : less.texts inserted = more.texts inserted := by
  rw [Selection.texts, Selection.texts, selections.first.before, selections.last.after]

theorem LessKnown.roomy {less more : Selection} (selections : less.LessKnown more)
    {inserted : Text} (room : less.Roomy inserted) : more.Roomy inserted := by
  rw [Roomy, ← selections.first.before, ← selections.last.after]
  exact room

theorem LessKnown.edited {less more : Selection} (selections : less.LessKnown more)
    (sound : less.Sound) (sound' : more.Sound) {inserted : Text} (room : less.Roomy inserted)
    {carry carry' : Bool} (weaker : carry = true → carry' = true) :
    LinesLessKnown (less.edited carry inserted) (more.edited carry' inserted) := by
  cases known : less.remainder.state with
  | none =>
      rw [sound.edited_of_unknown known, selections.texts, ← map_text_edited sound' carry']
      exact map_fresh_lessKnown _
  | some j =>
      have remains := joined_of_state_remainder known
      have remains' := selections.joined remains
      rcases sound.replay_eq_ok room remains carry with ⟨states, replayed⟩
      rcases sound'.replay_eq_ok (selections.roomy room) remains' carry' with ⟨states', replayed'⟩
      rw [Selection.edited, Selection.edited, replayed, replayed', selections.texts]
      rw [replay_of_joined remains, selections.first.position] at replayed
      rw [replay_of_joined remains'] at replayed'
      exact zipWith_settle_lessKnown _ (distribute_lessKnown weaker replayed replayed')

end Selection

namespace Document

/-!
## Documents and outcomes
-/

structure LessKnown (less more : Document) : Prop where
  lines : LinesLessKnown less.lines more.lines
  lenient : less.settings.recoverFromErrors = true
  lenient' : more.settings.recoverFromErrors = true
  weaker : less.settings.carrySplitTokens = true → more.settings.carrySplitTokens = true

theorem LessKnown.text {less more : Document} (documents : less.LessKnown more) :
    less.text = more.text := by
  rw [Document.text, Document.text, map_text_lessKnown documents.lines]

theorem LessKnown.lineCount {less more : Document} (documents : less.LessKnown more) :
    less.lineCount = more.lineCount :=
  documents.lines.length_eq

theorem LessKnown.lineWidth? {less more : Document} (documents : less.LessKnown more)
    (line : Nat) : less.lineWidth? line = more.lineWidth? line := by
  unfold Document.lineWidth?
  rcases none_or_some_of_rel (getElem?_lessKnown documents.lines line) with
    ⟨past, past'⟩ | ⟨first, second, found, found', same⟩
  · rw [past, past']
  · rw [found, found', Option.map_some, Option.map_some, Line.width, Line.width, same.text]

theorem LessKnown.tiling? {less more : Document} (documents : less.LessKnown more)
    (line : Nat) : less.tiling? line = none ∨ less.tiling? line = more.tiling? line := by
  unfold Document.tiling?
  rcases none_or_some_of_rel (getElem?_lessKnown documents.lines line) with
    ⟨past, _⟩ | ⟨first, second, found, found', same⟩
  · rw [past]
    exact Or.inl rfl
  · rw [found, found', Option.bind_some, Option.bind_some]
    cases known : first.state with
    | none =>
        exact Or.inl rfl
    | some t =>
        exact Or.inr (same.state t known).symm

theorem lessKnown_ofText (text : Text) {less more : Settings}
    (lenient : less.recoverFromErrors = true) (lenient' : more.recoverFromErrors = true)
    (weaker : less.carrySplitTokens = true → more.carrySplitTokens = true) :
    (ofText text less).LessKnown (ofText text more) :=
  ⟨.refl _, lenient, lenient', weaker⟩

end Document

structure Outcome.LessKnown (less more : Outcome) : Prop where
  document : less.document.LessKnown more.document
  error : less.error = more.error

def Command.script : Command → Script
  | .edit e => [e]
  | .run script => script
  | _ => []

namespace Document

variable {less more : Document}

/-!
## Storing and clearing
-/

theorem LessKnown.setState (documents : less.LessKnown more) (line : Nat) {state state' : LineState}
    (states : state.LessKnown state') :
    (less.setState line state).LessKnown (more.setState line state') where
  lines := by
    apply modify_lessKnown documents.lines
    intro first second same
    exact ⟨same.text, states⟩
  lenient := documents.lenient
  lenient' := documents.lenient'
  weaker := documents.weaker

theorem LessKnown.store (documents : less.LessKnown more) (line : Nat) (t : Tiling) :
    (Outcome.ofExcept less (less.store line t)).LessKnown
      (Outcome.ofExcept more (more.store line t)) := by
  unfold Document.store
  rw [documents.lineWidth?, documents.lineCount]
  cases more.lineWidth? line with
  | none =>
      exact ⟨documents, rfl⟩
  | some width =>
      by_cases covers : t.length.toNat = width
      · simp only [if_pos covers]
        exact ⟨documents.setState line (.refl _), rfl⟩
      · simp only [if_neg covers]
        exact ⟨documents, rfl⟩

theorem LessKnown.storeDecoded (documents : less.LessKnown more) (line : Nat)
    (decoded : Except TilingError Tiling) :
    (Outcome.ofExcept less (less.storeDecoded line decoded)).LessKnown
      (Outcome.ofExcept more (more.storeDecoded line decoded)) := by
  cases decoded with
  | error cause =>
      exact ⟨documents, rfl⟩
  | ok t =>
      exact documents.store line t

theorem LessKnown.clear (documents : less.LessKnown more) (line : Nat) :
    (Outcome.ofExcept less (less.clear line)).LessKnown
      (Outcome.ofExcept more (more.clear line)) := by
  unfold Document.clear
  rw [documents.lineCount]
  by_cases inside : line < more.lineCount
  · rw [if_pos inside, if_pos inside]
    exact ⟨documents.setState line (.refl _), rfl⟩
  · rw [if_neg inside, if_neg inside]
    exact ⟨documents, rfl⟩

theorem LessKnown.forget (documents : less.LessKnown more) (line : Nat) :
    (less.perform (.clear line)).document.LessKnown more := by
  show (Outcome.ofExcept less (less.clear line)).document.LessKnown more
  unfold Document.clear
  by_cases inside : line < less.lineCount
  · rw [if_pos inside]
    have forgotten : LinesLessKnown (less.setState line none).lines
        (more.lines.modify line id) := by
      apply modify_lessKnown documents.lines
      intro first second same
      exact ⟨same.text, LineState.lessKnown_none _⟩
    rw [List.modify_id] at forgotten
    exact ⟨forgotten, documents.lenient, documents.lenient', documents.weaker⟩
  · rw [if_neg inside]
    exact documents

/-!
## Edits
-/

theorem LessKnown.replace (documents : less.LessKnown more) {selection selection' : Selection}
    (selections : selection.LessKnown selection') (sound : selection.Sound)
    (sound' : selection'.Sound) {inserted : Text} (room : selection.Roomy inserted) :
    (less.replace selection inserted).LessKnown (more.replace selection' inserted) := by
  have edited := selections.edited sound sound' room documents.weaker
  constructor
  · rw [document_replace, document_replace]
    refine ⟨?_, documents.lenient, documents.lenient', documents.weaker⟩
    exact List.rel_append (List.rel_append selections.first.above edited) selections.last.below
  · rw [error_replace_of_recover documents.lenient, error_replace_of_recover documents.lenient']

theorem LessKnown.edit (documents : less.LessKnown more) (sound : less.Sound)
    (sound' : more.Sound) (e : Edit) (room : less.text.width + e.inserted.width < UInt32.size) :
    (less.edit e).LessKnown (more.edit e) := by
  rcases none_or_some_of_rel (select?_lessKnown documents.lines e.start e.stop) with
    ⟨outside, outside'⟩ | ⟨selection, selection', selected, selected', selections⟩
  · rw [edit_of_none outside, edit_of_none outside', Document.length, Document.length,
      documents.text]
    exact ⟨documents, rfl⟩
  · cases change : e.isNoop with
    | true =>
        rw [edit_of_noop selected change, edit_of_noop selected' change]
        exact ⟨documents, rfl⟩
    | false =>
        rw [edit_of_selected selected change, edit_of_selected selected' change]
        exact documents.replace selections (sound_of_select? sound selected)
          (sound_of_select? sound' selected') (roomy_of_select? selected room)

/-- At each edit of the script that is reached, the text and what is inserted leave room. -/
def Roomy (d : Document) : Script → Prop
  | [] => True
  | e :: rest =>
      d.text.width + e.inserted.width < UInt32.size ∧
        ((d.edit e).error = none → (d.edit e).document.Roomy rest)

theorem LessKnown.run (documents : less.LessKnown more) (sound : less.Sound)
    (sound' : more.Sound) {script : Script} (room : less.Roomy script) :
    (less.run script).LessKnown (more.run script) := by
  induction script generalizing less more with
  | nil =>
      exact ⟨documents, rfl⟩
  | cons e rest ih =>
      have outcomes := documents.edit sound sound' e room.1
      cases error : (less.edit e).error with
      | none =>
          have error' := outcomes.error.symm.trans error
          rw [run_cons_of_none error, run_cons_of_none error']
          exact ih outcomes.document (sound_edit sound e) (sound_edit sound' e) (room.2 error)
      | some cause =>
          have error' := outcomes.error.symm.trans error
          rw [run_cons_of_some error, run_cons_of_some error']
          exact outcomes

theorem width_text_edit_le {d : Document} (sound : d.Sound) (e : Edit) :
    (d.edit e).document.text.width ≤ d.text.width + e.inserted.width := by
  cases selected : select? d.lines e.start e.stop with
  | none =>
      rw [edit_of_none selected]
      exact Nat.le_add_right _ _
  | some selection =>
      cases change : e.isNoop with
      | true =>
          rw [edit_of_noop selected change]
          exact Nat.le_add_right _ _
      | false =>
          have around := width_prior_add_rest_le selected
          rw [edit_of_selected selected change, text_replace (sound_of_select? sound selected),
            Text.width_append, Text.width_append]
          omega

/-- There is room throughout if there is room for all that is inserted at once. -/
theorem roomy_of_total {d : Document} (sound : d.Sound) {script : Script}
    (total : d.text.width + Text.width (script.flatMap Edit.inserted) < UInt32.size) :
    d.Roomy script := by
  induction script generalizing d with
  | nil =>
      trivial
  | cons e rest ih =>
      rw [List.flatMap_cons, Text.width_append] at total
      have grown := width_text_edit_le sound e
      exact ⟨by omega, fun _ => ih (sound_edit sound e) (by omega)⟩

/-!
## Runs side by side

Forgetting, or carrying less, only loses knowledge. The texts stay the same, a line is unknown
in the first document or has the tiling that it has in the second, and a command for which
there is room has the same error in both, or none in both.
-/

theorem LessKnown.perform (documents : less.LessKnown more) (sound : less.Sound)
    (sound' : more.Sound) {command : Command} (room : less.Roomy command.script) :
    (less.perform command).LessKnown (more.perform command) := by
  cases command with
  | set line tokens =>
      exact documents.storeDecoded line _
  | restore line packed =>
      exact documents.storeDecoded line _
  | clear line =>
      exact documents.clear line
  | edit e =>
      exact documents.edit sound sound' e room.1
  | run script =>
      exact documents.run sound sound' room

/--
Documents that begin with the same text and take the same commands. The first may
carry less at a split, and it may be told to forget a line between two commands.
-/
inductive RunsBeside : Document → Document → Prop where
  | ofText (text : Text) (less more : Settings) (lenient : less.recoverFromErrors = true)
      (lenient' : more.recoverFromErrors = true)
      (weaker : less.carrySplitTokens = true → more.carrySplitTokens = true) :
      RunsBeside (Document.ofText text less) (Document.ofText text more)
  | perform (less more : Document) (command : Command) (before : RunsBeside less more)
      (room : less.Roomy command.script) :
      RunsBeside (less.perform command).document (more.perform command).document
  | forget (less more : Document) (line : Nat) (before : RunsBeside less more) :
      RunsBeside (less.perform (.clear line)).document more

theorem RunsBeside.reachable (runs : less.RunsBeside more) :
    less.Reachable ∧ more.Reachable := by
  induction runs with
  | ofText text less more =>
      exact ⟨.ofText text less, .ofText text more⟩
  | perform less more command _ _ ih =>
      exact ⟨.perform less command ih.1, .perform more command ih.2⟩
  | forget less more line _ ih =>
      exact ⟨.perform less (.clear line) ih.1, ih.2⟩

theorem RunsBeside.lessKnown (runs : less.RunsBeside more) : less.LessKnown more := by
  induction runs with
  | ofText text less more lenient lenient' weaker =>
      exact lessKnown_ofText text lenient lenient' weaker
  | perform less more command before room ih =>
      have reachable := before.reachable
      exact (ih.perform reachable.1.sound reachable.2.sound room).document
  | forget less more line _ ih =>
      exact ih.forget line

theorem agree_of_runsBeside (runs : less.RunsBeside more) :
    less.text = more.text ∧
      (∀ line, less.tiling? line = none ∨ less.tiling? line = more.tiling? line) ∧
      ∀ command : Command, less.Roomy command.script →
        (less.perform command).error = (more.perform command).error := by
  have documents := runs.lessKnown
  have reachable := runs.reachable
  refine ⟨documents.text, documents.tiling?, ?_⟩
  intro command room
  exact (documents.perform reachable.1.sound reachable.2.sound room).error

def knownLines (carry : Bool) : Document :=
  (ofText ['a', 'b', '\n', 'c', 'd'] ⟨carry, true⟩).after
    [.set 0 [⟨1, 7⟩, ⟨2, 8⟩], .set 1 [⟨2, 5⟩]]

theorem runsBeside_knownLines : (knownLines false).RunsBeside (knownLines true) :=
  .perform _ _ (.set 1 [⟨2, 5⟩])
    (.perform _ _ (.set 0 [⟨1, 7⟩, ⟨2, 8⟩]) (.ofText _ _ _ rfl rfl (by decide)) trivial) trivial

/-- Of two lines, one is forgotten and the other is split. A script then fails at its end. -/
theorem agree_after_split :
    ∃ less more, less = (knownLines false).after [.clear 1, .edit (.insert 1 ['\n'])] ∧
      more = (knownLines true).after [.edit (.insert 1 ['\n'])] ∧
      less.pending = [1, 2] ∧ more.pending = [] ∧ less.text = more.text ∧
      less.tiling? 0 = more.tiling? 0 ∧
      (more.perform (.run [.delete 0 1, .delete 7 8])).error = some (.editOutside 7 8 5) ∧
      (less.perform (.run [.delete 0 1, .delete 7 8])).error =
        (more.perform (.run [.delete 0 1, .delete 7 8])).error := by
  have forgotten := RunsBeside.forget _ _ 1 runsBeside_knownLines
  have room : Roomy ((knownLines false).perform (.clear 1)).document [.insert 1 ['\n']] :=
    roomy_of_total forgotten.reachable.1.sound (by decide +kernel)
  have runs := RunsBeside.perform _ _ (.edit (.insert 1 ['\n'])) forgotten room
  rcases agree_of_runsBeside runs with ⟨texts, tilings, errors⟩
  refine ⟨_, _, rfl, rfl, by decide +kernel, by decide +kernel, texts, ?_, by decide +kernel, ?_⟩
  · exact (tilings 0).resolve_left (by decide +kernel)
  · exact errors (.run [.delete 0 1, .delete 7 8])
      (roomy_of_total runs.reachable.1.sound (by decide +kernel))

end Document

end TiledText
