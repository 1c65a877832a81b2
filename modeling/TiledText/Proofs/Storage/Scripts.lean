import TiledText.Proofs.Storage.Commands

/-!
# Scripts

The edits of a script are made one after the other, and each of them refers to the text that
those before it leave. The first that reports an error ends the script with that error. What
comes after it has no effect, and what came before it stays.

An edit that is out of range leaves nothing behind. One that the tilings cannot follow leaves
its text. With recovery no edit reports the latter, so a script ends early only before an edit
that is out of range.
-/

namespace TiledText

namespace Edit

/-- The text with the range replaced. -/
def textAfter (e : Edit) (text : Text) : Text :=
  text.take e.start ++ e.inserted ++ text.drop e.stop

def InRange (e : Edit) (text : Text) : Prop :=
  e.start ≤ e.stop ∧ e.stop ≤ text.length

end Edit

/-- The text after a script, each edit on the text that the one before it leaves. -/
def textAfter (text : Text) : Script → Text
  | [] => text
  | e :: rest => textAfter (e.textAfter text) rest

namespace Document

inductive Steps : Document → Script → Document → Prop where
  | nil (d : Document) : Steps d [] d
  | cons {d after : Document} {e : Edit} {rest : Script} (succeeds : (d.edit e).error = none)
      (later : Steps (d.edit e).document rest after) : Steps d (e :: rest) after

/-- What comes of a script: every edit is made, or one of them reports an error. -/
inductive Ends (d : Document) : Script → Outcome → Prop where
  | done {script : Script} {after : Document} (steps : d.Steps script after) :
      Ends d script ⟨after, none⟩
  | failed {before later : Script} {e : Edit} {reached after : Document} {cause : DocumentError}
      (steps : d.Steps before reached) (fails : reached.edit e = ⟨after, some cause⟩) :
      Ends d (before ++ e :: later) ⟨after, some cause⟩

variable {d reached : Document} {script before later : Script} {e : Edit} {cause : DocumentError}

/-!
## Running step by step

A run comes to exactly one end. Every edit is made, or the edits before one that reports an
error.
-/

/-- Edits that succeed can be left behind. -/
theorem Steps.run_append (steps : d.Steps before reached) (later : Script) :
    d.run (before ++ later) = reached.run later := by
  induction steps with
  | nil d =>
      rfl
  | cons succeeds _ ih =>
      rw [List.cons_append, run_cons_of_none succeeds]
      exact ih

theorem ends_run (d : Document) (script : Script) : d.Ends script (d.run script) := by
  induction script generalizing d with
  | nil =>
      exact .done (.nil d)
  | cons e rest ih =>
      cases error : (d.edit e).error with
      | some cause =>
          rw [run_cons_of_some error]
          have fails : d.edit e = ⟨(d.edit e).document, some cause⟩ :=
            Outcome.ext rfl error
          rw [fails]
          exact .failed (.nil d) fails
      | none =>
          have tail := ih (d.edit e).document
          rw [run_cons_of_none error]
          generalize (d.edit e).document.run rest = outcome at tail ⊢
          cases tail with
          | done steps =>
              exact .done (.cons error steps)
          | failed steps fails =>
              exact .failed (.cons error steps) fails

theorem Ends.eq_run {outcome : Outcome} (ends : d.Ends script outcome) :
    d.run script = outcome := by
  cases ends with
  | done steps =>
      have whole := steps.run_append []
      rw [List.append_nil] at whole
      exact whole
  | failed steps fails =>
      rw [steps.run_append, run_cons_of_some (congrArg Outcome.error fails), fails]

theorem run_eq_iff {outcome : Outcome} : d.run script = outcome ↔ d.Ends script outcome := by
  constructor
  · intro same
    rw [← same]
    exact d.ends_run script
  · exact Ends.eq_run

theorem steps_of_error_run (succeeds : (d.run script).error = none) :
    d.Steps script (d.run script).document := by
  cases same : d.run script with
  | mk after error =>
      rw [same] at succeeds
      cases run_eq_iff.mp same with
      | done steps =>
          exact steps
      | failed steps fails =>
          cases succeeds

theorem exists_of_error_run (failed : (d.run script).error = some cause) :
    ∃ before e later reached, script = before ++ e :: later ∧ d.Steps before reached ∧
      (reached.edit e).error = some cause ∧ d.run script = reached.edit e := by
  cases same : d.run script with
  | mk after error =>
      rw [same] at failed
      cases run_eq_iff.mp same with
      | done steps =>
          cases failed
      | failed steps fails =>
          exact ⟨_, _, _, _, rfl, steps, (congrArg Outcome.error fails).trans failed, fails.symm⟩

theorem run_append (d : Document) (script later : Script) :
    d.run (script ++ later) =
      if (d.run script).error = none then (d.run script).document.run later else d.run script := by
  cases error : (d.run script).error with
  | none =>
      rw [if_pos rfl]
      exact (steps_of_error_run error).run_append later
  | some cause =>
      rw [if_neg (Option.some_ne_none cause)]
      rcases exists_of_error_run error with ⟨before, e, rest, reached, rfl, steps, fails, same⟩
      rw [same, List.append_assoc, List.cons_append, steps.run_append, run_cons_of_some fails]

/-!
## The text on the way

An edit in range changes the text in the same way whatever is known of the lines, so the text
after a script can be told from the text before it.
-/

theorem Steps.sound (steps : d.Steps script reached) (sound : d.Sound) : reached.Sound := by
  induction steps with
  | nil d =>
      exact sound
  | cons _ _ ih =>
      exact ih (sound_edit sound _)

theorem Steps.settings (steps : d.Steps script reached) : reached.settings = d.settings := by
  induction steps with
  | nil d =>
      rfl
  | cons _ _ ih =>
      rw [ih, settings_edit]

/-- The range is compared with the text that the edit is made on. -/
theorem Sound.error_edit_iff (sound : d.Sound) (e : Edit) {start stop length : Nat} :
    (d.edit e).error = some (.editOutside start stop length) ↔
      ¬ e.InRange d.text ∧ start = e.start ∧ stop = e.stop ∧ length = d.text.length := by
  rw [error_edit_eq_outside_iff sound, Edit.InRange, not_and_or, Nat.not_le, Nat.not_le]
  rfl

theorem Sound.inRange_of_error (sound : d.Sound) (succeeds : (d.edit e).error = none) :
    e.InRange d.text := by
  by_cases range : e.InRange d.text
  · exact range
  · rw [(sound.error_edit_iff e).mpr ⟨range, rfl, rfl, rfl⟩] at succeeds
    cases succeeds

theorem Sound.document_edit_of_outside (sound : d.Sound) (outside : ¬ e.InRange d.text) :
    (d.edit e).document = d := by
  rw [Edit.InRange, not_and_or, Nat.not_le, Nat.not_le] at outside
  rw [edit_of_none ((select?_eq_none_iff sound).mpr outside)]

theorem Steps.text (steps : d.Steps script reached) (sound : d.Sound) :
    reached.text = textAfter d.text script := by
  induction steps with
  | nil d =>
      rfl
  | cons succeeds _ ih =>
      have range := sound.inRange_of_error succeeds
      rw [ih (sound_edit sound _), textAfter, text_edit sound range.1 range.2]
      rfl

theorem Sound.error_edit_of_recover (sound : d.Sound)
    (lenient : d.settings.recoverFromErrors = true) (failed : (d.edit e).error = some cause) :
    ¬ e.InRange d.text ∧ cause = .editOutside e.start e.stop d.text.length := by
  have outside : cause = .editOutside e.start e.stop d.text.length := by
    cases selected : select? d.lines e.start e.stop with
    | none =>
        rw [edit_of_none selected] at failed
        exact (Option.some.inj failed).symm
    | some selection =>
        cases change : e.isNoop with
        | true =>
            rw [edit_of_noop selected change] at failed
            cases failed
        | false =>
            rw [edit_of_selected selected change, error_replace_of_recover lenient] at failed
            cases failed
  rw [outside] at failed
  exact ⟨((sound.error_edit_iff e).mp failed).1, outside⟩

end Document

/-!
## Scripts in storage
-/

namespace Storage

open Checked

variable {R : Type} [Rope R]

/-- In storage, too, a script is run up to its first error, whatever the rope. -/
theorem run_append (s : Storage R) (script later : Script) :
    s.run (script ++ later) = do
      let outcome ← s.run script
      if outcome.error = none then outcome.storage.run later else return outcome := by
  induction script generalizing s with
  | nil =>
      rfl
  | cons e rest ih =>
      rw [List.cons_append, run, run]
      cases s.edit e with
      | error fault =>
          rfl
      | ok outcome =>
          rw [ok_bind, ok_bind]
          cases error : outcome.error with
          | none =>
              exact ih outcome.storage
          | some cause =>
              rw [pure_eq_ok, ok_bind, if_neg (error ▸ Option.some_ne_none cause)]
              rfl

end Storage

namespace Document

/-!
## Runs step by step

Running a script on a reachable document makes its edits up to the first that reports an error,
and reports that. A script with more edits at its end goes on with them exactly if there was no
error. Every edit refers to the text that those before it leave. If it is out of range there it
changes nothing, and otherwise it replaces the range, even where the tilings cannot follow. With
recovery the range is all that is reported, and what is left is what the edits before it left.
Storage does the same.
-/

/-- The next edit is out of range for the text, or it replaces the range. -/
structure EditsText (reached : Document) (e : Edit) : Prop where
  refused : ∀ start stop length, (reached.edit e).error = some (.editOutside start stop length) ↔
    ¬ e.InRange reached.text ∧ start = e.start ∧ stop = e.stop ∧ length = reached.text.length
  unchanged : ¬ e.InRange reached.text → (reached.edit e).document = reached
  replaced : e.InRange reached.text → (reached.edit e).document.text = e.textAfter reached.text
  forgets : ∀ cause, (reached.edit e).error = some (.tiling cause) →
    reached.Forgets e (reached.edit e).document

structure RunsBySteps (d : Document) (script : Script) : Prop where
  ends : ∀ outcome, d.run script = outcome ↔ d.Ends script outcome
  append : ∀ later, d.run (script ++ later) =
    if (d.run script).error = none then (d.run script).document.run later else d.run script
  reached : ∀ reached, d.Steps script reached →
    reached.text = textAfter d.text script ∧ ∀ e, reached.EditsText e
  recovered : d.settings.recoverFromErrors = true → ∀ cause, (d.run script).error = some cause →
    ∃ before e later, script = before ++ e :: later ∧ d.Steps before (d.run script).document ∧
      ¬ e.InRange (textAfter d.text before) ∧
      cause = .editOutside e.start e.stop (textAfter d.text before).length
  stored : ∀ {R : Type} [Rope R] [LawfulRope R] (s : Storage R), s.Holds d →
    d.length + (script.map Edit.insertedLength).sum < Checked.addressSize →
    Storage.Agrees (s.run script) (d.run script) ∧
      ∀ later, s.run (script ++ later) = do
        let outcome ← s.run script
        if outcome.error = none then outcome.storage.run later else return outcome

theorem Sound.editsText {reached : Document} (sound : reached.Sound) (e : Edit) :
    reached.EditsText e where
  refused := fun _ _ _ => sound.error_edit_iff e
  unchanged := sound.document_edit_of_outside
  replaced := fun range => text_edit sound range.1 range.2
  forgets := fun _ => sound.forgets_of_error

theorem run_by_steps {d : Document} (reachable : d.Reachable) (script : Script) :
    d.RunsBySteps script where
  ends := fun _ => run_eq_iff
  append := d.run_append script
  reached := by
    intro reached steps
    exact ⟨steps.text reachable.sound, (steps.sound reachable.sound).editsText⟩
  recovered := by
    intro lenient cause failed
    have sound := reachable.sound
    rcases exists_of_error_run failed with ⟨before, e, later, reached, shape, steps, fails, same⟩
    have settings := steps.settings
    rcases (steps.sound sound).error_edit_of_recover (settings ▸ lenient) fails with
      ⟨outside, reported⟩
    have left : (d.run script).document = reached := by
      rw [same, (steps.sound sound).document_edit_of_outside outside]
    rw [steps.text sound] at outside reported
    exact ⟨before, e, later, shape, left.symm ▸ steps, outside, reported⟩
  stored := by
    intro R _ _ s holds fits
    exact ⟨Storage.run_agrees holds reachable.sound fits, s.run_append script⟩

/--
A script that ends with the joining of two lines that clash, for all that comes after it, and one
that ends before an edit that is out of range for the text it would be made on.
-/
theorem run_by_steps_until_clash :
    let joining : Script := [.insert 0 ['z'], .delete 4 5]
    let straying : Script := [.insert 0 ['x'], .insert 4 ['y'], .insert 0 ['z']]
    let lenient := ofText ['a', 'b'] default
    clashAbove.run (joining ++ [.insert 0 ['w']]) = clashAbove.run joining ∧
      (clashAbove.run joining).error = some (.tiling (.unordered 1)) ∧
      (clashAbove.run joining).document.text = ['z', 'x', '\n', 'a', 'b', '\n', 'y'] ∧
      lenient.run straying =
        ⟨(lenient.edit (.insert 0 ['x'])).document, some (.editOutside 4 4 3)⟩ := by
  intro joining straying lenient
  have clash : clashAbove.Reachable := reachable_after (.ofText _ _) _
  have plain : lenient.Reachable := .ofText _ _
  have reported : (clashAbove.run joining).error = some (.tiling (.unordered 1)) := by
    decide +kernel
  have first : (lenient.edit (.insert 0 ['x'])).error = none := by decide +kernel
  have second : (lenient.edit (.insert 0 ['x'])).document.edit (.insert 4 ['y']) =
      ⟨(lenient.edit (.insert 0 ['x'])).document, some (.editOutside 4 4 3)⟩ := by
    decide +kernel
  refine ⟨?_, reported, by decide +kernel, ?_⟩
  · rw [(run_by_steps clash joining).append, if_neg (reported ▸ Option.some_ne_none _)]
  · exact ((run_by_steps plain straying).ends _).mpr
      (.failed (.cons first (.nil _)) second)

end Document

end TiledText
