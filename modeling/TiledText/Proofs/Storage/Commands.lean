import TiledText.Proofs.Buffer.Calls
import TiledText.Proofs.Document.Cache
import TiledText.Proofs.Storage.Edit

/-!
# Commands to storage

Storage that holds a sound document goes on to hold one, whatever commands it is given.
They do with it what they do with the document, report the same errors, and never fault.
Lines are read from storage as from the document, by any number. All this is so for any
rope that keeps to its laws, and as these say nothing of what lies outside the text, no
command ever asks a rope for it.
-/

namespace TiledText

namespace Storage

open Checked

variable {R : Type} [Rope R] {s : Storage R} {d : Document}

/-!
## Storing tokens
-/

theorem Holds.lineCount (holds : s.Holds d) : s.states.length = d.lineCount := by
  rw [holds.states, List.length_map]
  rfl

theorem Holds.setState (holds : s.Holds d) (line : Nat) (state : LineState) :
    Holds { s with states := s.states.set line state.buffer } (d.setState line state) where
  text := by
    rw [Document.text, Document.texts_setState]
    exact holds.text
  states := by
    apply List.ext_getElem?
    intro n
    rw [List.getElem?_set, List.getElem?_map, Document.getElem?_setState, holds.states,
      List.getElem?_map, List.length_map]
    by_cases same : line = n
    · subst same
      rw [if_pos rfl, if_pos rfl]
      cases there : d.lines[line]? with
      | none =>
          rw [if_neg (Nat.not_lt.mpr (List.getElem?_eq_none_iff.mp there))]
          rfl
      | some target =>
          rw [if_pos (List.getElem?_eq_some_iff.mp there).1]
          rfl
    · rw [if_neg same, if_neg same]
  settings := holds.settings

theorem clear_agrees (holds : s.Holds d) (line : Nat) :
    Agrees (.ok (s.clear line)) (.ofExcept d (d.clear line)) := by
  unfold clear Document.clear
  rw [holds.lineCount]
  split
  · exact ⟨_, rfl, holds.setState line none⟩
  · exact ⟨s, rfl, holds⟩

variable [LawfulRope R]

theorem Holds.lineWidth?_eq_ok (holds : s.Holds d) (sound : d.Sound)
    (fits : d.length < addressSize) (line : Nat) :
    s.lineWidth? line = .ok (d.lineWidth? line) :=
  Rope.lineWidth?_eq_ok sound holds.text fits line

theorem store_of_outside (holds : s.Holds d) (sound : d.Sound) (fits : d.length < addressSize)
    {line : Nat} (beyond : d.lineWidth? line = none) (t : Tiling) :
    s.store line t.buffer = .ok ⟨s, some (.lineOutside line d.lineCount)⟩ := by
  rw [store, holds.lineWidth?_eq_ok sound fits, ok_bind, beyond, holds.lineCount]
  rfl

theorem store_of_uncovered (holds : s.Holds d) (sound : d.Sound) (fits : d.length < addressSize)
    {line expected : Nat} (there : d.lineWidth? line = some expected) {t : Tiling}
    (differs : t.length.toNat ≠ expected) :
    s.store line t.buffer = .ok ⟨s, some (.uncovered line expected t.length.toNat)⟩ := by
  rw [store, holds.lineWidth?_eq_ok sound fits, ok_bind, there]
  show (t.buffer.length >>= _) = _
  rw [Buffer.length_buffer, ok_bind, if_neg differs]
  rfl

theorem store_of_covered (holds : s.Holds d) (sound : d.Sound) (fits : d.length < addressSize)
    {line expected : Nat} (there : d.lineWidth? line = some expected) {t : Tiling}
    (covers : t.length.toNat = expected) :
    s.store line t.buffer =
      .ok ⟨{ s with states := s.states.set line (some t.buffer) }, none⟩ := by
  have inside : line < s.states.length := by
    rw [holds.lineCount]
    rcases Option.map_eq_some_iff.mp there with ⟨target, found, _⟩
    exact (List.getElem?_eq_some_iff.mp found).1
  rw [store, holds.lineWidth?_eq_ok sound fits, ok_bind, there]
  show (t.buffer.length >>= _) = _
  rw [Buffer.length_buffer, ok_bind, if_pos covers, put_eq_ok inside]
  rfl

theorem store_agrees (holds : s.Holds d) (sound : d.Sound) (fits : d.length < addressSize)
    (line : Nat) (t : Tiling) :
    Agrees (s.store line t.buffer) (.ofExcept d (d.store line t)) := by
  unfold Document.store
  cases there : d.lineWidth? line with
  | none =>
      exact ⟨s, store_of_outside holds sound fits there t, holds⟩
  | some expected =>
      show Agrees _ (.ofExcept d (ite _ _ _))
      by_cases covers : t.length.toNat = expected
      · rw [if_pos covers]
        exact ⟨_, store_of_covered holds sound fits there covers, holds.setState line (some t)⟩
      · rw [if_neg covers]
        exact ⟨s, store_of_uncovered holds sound fits there covers, holds⟩

theorem storeDecoded_agrees (holds : s.Holds d) (sound : d.Sound)
    (fits : d.length < addressSize) (line : Nat) (decoded : Except TilingError Tiling) :
    Agrees (s.storeDecoded line (decoded.map Tiling.buffer))
      (.ofExcept d (d.storeDecoded line decoded)) := by
  cases decoded with
  | error cause =>
      exact ⟨s, rfl, holds⟩
  | ok t =>
      exact store_agrees holds sound fits line t

/-!
## Scripts
-/

theorem run_agrees (holds : s.Holds d) (sound : d.Sound) {script : Script}
    (fits : d.length + (script.map Edit.insertedLength).sum < addressSize) :
    Agrees (s.run script) (d.run script) := by
  induction script generalizing s d with
  | nil =>
      exact ⟨s, rfl, holds⟩
  | cons e rest ih =>
      rw [List.map_cons, List.sum_cons] at fits
      rcases edit_agrees (e := e) holds sound (by omega) with ⟨left, done, held⟩
      have short := Document.length_edit_le sound e
      rw [run, done, ok_bind]
      cases error : (d.edit e).error with
      | none =>
          rw [Document.run_cons_of_none error]
          exact ih held (Document.sound_edit sound e) (by omega)
      | some cause =>
          rw [Document.run_cons_of_some error]
          exact ⟨left, by rw [error]; rfl, held⟩

/-!
## Commands

After any commands storage holds the document that they lead to, and there is a state for every
line of the rope. Any line can then be read, whether there is one or not, and any command can
be given next. No step on the way faults. As this is so for a rope that faults outside of its
text as well, none asks for what is outside.
-/

theorem perform_agrees (holds : s.Holds d) (sound : d.Sound) {command : Command}
    (fits : d.length + command.footprint < addressSize) :
    Agrees (s.perform command) (d.perform command) := by
  have room : d.length < addressSize := Nat.lt_of_le_of_lt (Nat.le_add_right _ _) fits
  have brought : command.footprint < addressSize :=
    Nat.lt_of_le_of_lt (Nat.le_add_left _ _) fits
  cases command with
  | set line tokens =>
      show Agrees (Buffer.ofTokens tokens >>= _) _
      rw [Buffer.ofTokens_eq_ok brought, ok_bind]
      exact storeDecoded_agrees holds sound room line _
  | restore line packed =>
      show Agrees (Buffer.ofPacked packed >>= _) _
      rw [Buffer.ofPacked_eq_ok brought, ok_bind]
      exact storeDecoded_agrees holds sound room line _
  | clear line =>
      exact clear_agrees holds line
  | edit e =>
      exact edit_agrees holds sound fits
  | run script =>
      exact run_agrees holds sound fits

theorem exists_after (holds : s.Holds d) (sound : d.Sound) {commands : List Command}
    (fits : d.Affords commands) :
    ∃ left, s.after commands = .ok left ∧ left.Holds (d.after commands) ∧
      (d.after commands).length < addressSize := by
  induction commands generalizing s d with
  | nil =>
      exact ⟨s, rfl, holds, fits⟩
  | cons command rest ih =>
      rcases perform_agrees holds sound fits.1 with ⟨left, done, held⟩
      rw [after, done, ok_bind]
      exact ih held (Document.sound_perform sound command) fits.2

theorem holds_ofText (text : Text) (settings : Settings) :
    (ofText text settings : Storage R).Holds (Document.ofText text settings) where
  text := by
    rw [ofText, LawfulRope.text_ofText, Document.text_ofText]
  states := by
    rw [ofText, LawfulRope.lineCount_eq, LawfulRope.text_ofText, Document.ofText, List.map_map]
    exact (List.map_const' ..).symm
  settings := rfl

theorem agrees_after_commands (text : Text) (settings : Settings) {commands : List Command}
    (fits : (Document.ofText text settings).Affords commands) :
    ∃ (s : Storage R) (d : Document), d = (Document.ofText text settings).after commands ∧
      (ofText text settings : Storage R).after commands = .ok s ∧ s.Holds d ∧
      s.states.length = Rope.lineCount s.rope ∧
      (∀ line, s.lineText? line = d.lineText? line ∧
        s.lineWidth? line = .ok (d.lineWidth? line) ∧
        s.buffer? line = (d.tiling? line).map Tiling.buffer) ∧
      ∀ command : Command, d.length + command.footprint < addressSize →
        Agrees (s.perform command) (d.perform command) := by
  have start : (ofText text settings : Storage R).Holds _ := holds_ofText text settings
  rcases exists_after start (Document.sound_ofText text settings) fits with
    ⟨s, done, holds, short⟩
  have sound := (Document.reachable_after (.ofText text settings) commands).sound
  refine ⟨s, _, rfl, done, holds, ?_, ?_, ?_⟩
  · rw [holds.lineCount, Rope.lineCount_eq sound holds.text]
  · intro line
    refine ⟨Rope.lineText?_eq sound holds.text line,
      Rope.lineWidth?_eq_ok sound holds.text short line, ?_⟩
    rw [buffer?, holds.states, List.getElem?_map, Document.tiling?]
    cases ((Document.ofText text settings).after commands).lines[line]? with
    | none =>
        rfl
    | some target =>
        rfl
  · intro command room
    exact perform_agrees holds sound room

/-- Two lines that cannot be joined, commands that fail, and then the line break is deleted. -/
theorem agrees_after_commands_of_failures :
    let commands : List Command :=
      [.set 0 [⟨1, 1⟩], .set 1 [⟨0, 5⟩, ⟨1, 6⟩], .edit (.delete 7 8), .clear 9,
        .set 2 [⟨1, 1⟩]]
    ∃ s : Storage Text,
      (ofText ['a', '\n', 'b', '\n'] ⟨true, false⟩ : Storage Text).after commands = .ok s ∧
      s.lineWidth? 2 = .ok (some 0) ∧ s.lineWidth? 18446744073709551615 = .ok none ∧
      s.perform (.edit (.delete 1 2)) =
        .ok ⟨⟨['a', 'b', '\n'], [none, none], ⟨true, false⟩⟩, some (.tiling (.unordered 1))⟩ := by
  intro commands
  have fits : (Document.ofText ['a', '\n', 'b', '\n'] ⟨true, false⟩).Affords commands := by
    decide +kernel
  rcases agrees_after_commands (R := Text) _ _ fits with ⟨s, _, rfl, done, _, _, reads, next⟩
  rcases next (.edit (.delete 1 2)) (by decide +kernel) with ⟨⟨rope, states, settings⟩, last, holds⟩
  have text : rope = ['a', 'b', '\n'] := holds.text.trans (by decide +kernel)
  have unknown : states = [none, none] := holds.states.trans (by decide +kernel)
  have kept : settings = ⟨true, false⟩ := holds.settings.trans (by decide +kernel)
  have refused : (((Document.ofText ['a', '\n', 'b', '\n'] ⟨true, false⟩).after commands).perform
      (.edit (.delete 1 2))).error = some (.tiling (.unordered 1)) := by decide +kernel
  rw [text, unknown, kept, refused] at last
  refine ⟨s, done, (reads 2).2.1.trans ?_, (reads 18446744073709551615).2.1.trans ?_, last⟩
  · exact congrArg Except.ok (by decide +kernel)
  · exact congrArg Except.ok (by decide +kernel)

end Storage

end TiledText
