import TiledText.Document.Command
import TiledText.Proofs.Document.Edited
import TiledText.Proofs.Tiling.RoundTrip

/-!
# Soundness of reachable documents

A document is sound when it has a line and all its lines are sound. A new
document is sound, every command keeps a sound document sound, and so every
reachable document is. Its lines are then the lines of its text, and a tiling is
only ever found on a line that it covers.
-/

namespace TiledText

namespace Document

structure Sound (d : Document) : Prop where
  nonempty : d.lines ≠ []
  line : ∀ line ∈ d.lines, line.Sound

/-!
## New documents
-/

theorem sound_ofText (text : Text) (settings : Settings) : (ofText text settings).Sound where
  nonempty := by
    intro vacant
    exact text.lines_ne_nil (List.map_eq_nil_iff.mp vacant)
  line := by
    intro line member
    rcases List.mem_map.mp member with ⟨part, inside, rfl⟩
    exact Line.sound_fresh (Text.newline_not_mem_of_mem_lines inside)

/-!
## Storing tokens
-/

theorem sound_setState {d : Document} (sound : d.Sound) {index : Nat} {state : LineState}
    (covered : ∀ t, state = some t →
      ∀ line, d.lines[index]? = some line → t.length.toNat = line.text.width) :
    (d.setState index state).Sound where
  nonempty := by
    intro vacant
    have empty := congrArg List.length vacant
    rw [setState, List.length_modify] at empty
    exact sound.nonempty (List.length_eq_zero_iff.mp empty)
  line := by
    intro line member
    rcases List.mem_iff_getElem?.mp member with ⟨i, found⟩
    rw [setState, List.getElem?_modify, Option.map_eq_map,
      Option.map_eq_some_iff] at found
    rcases found with ⟨old, there, rfl⟩
    have before := sound.line old (List.mem_of_getElem? there)
    split
    case isTrue same =>
      rw [← same] at there
      exact ⟨before.unbroken, fun t known => covered t known old there⟩
    case isFalse _ =>
      exact before

theorem sound_store {d after : Document} (sound : d.Sound) {index : Nat} {t : Tiling}
    (stored : d.store index t = .ok after) : after.Sound := by
  unfold store lineWidth? at stored
  cases there : d.lines[index]? with
  | none =>
      rw [there] at stored
      cases stored
  | some line =>
      rw [there] at stored
      by_cases covers : t.length.toNat = line.width
      · simp only [Option.map_some, if_pos covers] at stored
        cases stored
        apply sound_setState sound
        intro u same other found
        cases same
        rw [there] at found
        cases found
        exact covers
      · simp only [Option.map_some, if_neg covers] at stored
        cases stored

theorem sound_storeDecoded {d after : Document} (sound : d.Sound) {index : Nat}
    {decoded : Except TilingError Tiling} (stored : d.storeDecoded index decoded = .ok after) :
    after.Sound := by
  cases decoded with
  | error cause =>
      cases stored
  | ok t =>
      exact sound_store sound stored

theorem sound_clear {d after : Document} (sound : d.Sound) {index : Nat}
    (cleared : d.clear index = .ok after) : after.Sound := by
  unfold clear at cleared
  split at cleared
  · cases cleared
    apply sound_setState sound
    intro t impossible
    cases impossible
  · cases cleared

theorem sound_ofExcept {d : Document} (sound : d.Sound) {result : Except DocumentError Document}
    (succeeds : ∀ after, result = .ok after → after.Sound) :
    (Outcome.ofExcept d result).document.Sound := by
  cases result with
  | error cause =>
      exact sound
  | ok after =>
      exact succeeds after rfl

/-!
## Edits
-/

theorem sound_of_select? {d : Document} (sound : d.Sound) {start stop : Nat}
    {selection : Selection} (selected : select? d.lines start stop = some selection) :
    selection.Sound := by
  rcases select?_eq_some_iff.mp selected with ⟨first, last, _⟩
  exact ⟨lies_of_select? selected, sound.line _ (line_mem_of_caret? first),
    sound.line _ (line_mem_of_caret? last)⟩

/-- What the replay leaves known is kept only where it covers the new text. -/
theorem sound_of_mem_edited {selection : Selection} {carry : Bool} {inserted : Text}
    {line : Line} (member : line ∈ selection.edited carry inserted) : line.Sound := by
  unfold Selection.edited at member
  cases replayed : selection.replay carry inserted with
  | ok states =>
      rw [replayed] at member
      rcases List.mem_iff_getElem?.mp member with ⟨i, found⟩
      rw [List.getElem?_zipWith_eq_some] at found
      rcases found with ⟨part, state, here, _, rfl⟩
      exact Line.sound_settle
        (Text.newline_not_mem_of_mem_lines (List.mem_of_getElem? here)) state
  | error cause =>
      rw [replayed] at member
      rcases List.mem_map.mp member with ⟨part, inside, rfl⟩
      exact Line.sound_fresh (Text.newline_not_mem_of_mem_lines inside)

theorem sound_replace {d : Document} (sound : d.Sound) {start stop : Nat}
    {selection : Selection} (selected : select? d.lines start stop = some selection)
    (inserted : Text) : (d.replace selection inserted).document.Sound := by
  have inner := sound_of_select? sound selected
  rcases select?_eq_some_iff.mp selected with ⟨first, last, _⟩
  rcases caret?_eq_some_iff.mp first with ⟨above, _, _⟩
  rcases caret?_eq_some_iff.mp last with ⟨below, _, _⟩
  rw [document_replace]
  constructor
  · intro vacant
    rcases List.append_eq_nil_iff.mp vacant with ⟨front, _⟩
    exact Selection.edited_ne_nil inner _ _ (List.append_eq_nil_iff.mp front).2
  · intro line member
    rcases List.mem_append.mp member with front | after
    · rcases List.mem_append.mp front with before | edited
      · exact sound.line line (by rw [above]; exact List.mem_append_left _ before)
      · exact sound_of_mem_edited edited
    · apply sound.line line
      rw [below]
      exact List.mem_append_right _ (List.mem_cons_of_mem _ after)

theorem sound_edit {d : Document} (sound : d.Sound) (e : Edit) : (d.edit e).document.Sound := by
  cases selected : select? d.lines e.start e.stop with
  | none =>
      rw [edit_of_none selected]
      exact sound
  | some selection =>
      cases change : e.isNoop with
      | true =>
          rw [edit_of_noop selected change]
          exact sound
      | false =>
          rw [edit_of_selected selected change]
          exact sound_replace sound selected e.inserted

theorem text_edit {d : Document} (sound : d.Sound) {e : Edit} (ordered : e.start ≤ e.stop)
    (bound : e.stop ≤ d.length) :
    (d.edit e).document.text = d.text.take e.start ++ e.inserted ++ d.text.drop e.stop := by
  rcases (exists_select?_iff sound.nonempty).mpr ⟨ordered, bound⟩ with ⟨selection, selected⟩
  cases change : e.isNoop with
  | true =>
      rcases Edit.isNoop_iff.mp change with ⟨same, nothing⟩
      rw [edit_of_noop selected change, same, nothing, List.append_nil, List.take_append_drop]
  | false =>
      rcases select?_eq_some_iff.mp selected with ⟨first, last, _⟩
      rw [edit_of_selected selected change, text_replace (sound_of_select? sound selected),
        prior_eq_take first, rest_eq_drop last]
      rfl

theorem length_edit {d : Document} (sound : d.Sound) {e : Edit} (ordered : e.start ≤ e.stop)
    (bound : e.stop ≤ d.length) :
    (d.edit e).document.length + e.deletedLength = d.length + e.insertedLength := by
  rw [length, text_edit sound ordered bound, List.length_append, List.length_append,
    List.length_take, List.length_drop, Edit.deletedLength, Edit.insertedLength]
  rw [length] at bound ⊢
  omega

theorem sound_run {d : Document} (sound : d.Sound) (script : Script) :
    (d.run script).document.Sound := by
  induction script generalizing d with
  | nil =>
      exact sound
  | cons e rest ih =>
      have step := sound_edit sound e
      cases error : (d.edit e).error with
      | none =>
          rw [run_cons_of_none error]
          exact ih step
      | some cause =>
          rw [run_cons_of_some error]
          exact step

/-!
## Commands and runs
-/

theorem sound_perform {d : Document} (sound : d.Sound) (command : Command) :
    (d.perform command).document.Sound := by
  cases command with
  | set index tokens =>
      exact sound_ofExcept sound fun _ stored => sound_storeDecoded sound stored
  | restore index packed =>
      exact sound_ofExcept sound fun _ stored => sound_storeDecoded sound stored
  | clear index =>
      exact sound_ofExcept sound fun _ cleared => sound_clear sound cleared
  | edit e =>
      exact sound_edit sound e
  | run script =>
      exact sound_run sound script

theorem Reachable.sound {d : Document} (reachable : d.Reachable) : d.Sound := by
  induction reachable with
  | ofText text settings =>
      exact sound_ofText text settings
  | perform d command _ ih =>
      exact sound_perform ih command

/-- The document that some commands lead to, whether they succeed or not. -/
def after (d : Document) (commands : List Command) : Document :=
  commands.foldl (fun before command => (before.perform command).document) d

theorem reachable_after {d : Document} (reachable : d.Reachable) (commands : List Command) :
    (d.after commands).Reachable := by
  induction commands generalizing d with
  | nil =>
      exact reachable
  | cons command rest ih =>
      exact ih (.perform d command reachable)

/-!
## Lines and their tilings

After any commands there are as many lines as the text has, and the words stored for a line
come in pairs, have increasing stops and cover the text of the line.
-/

theorem Sound.lines_text {d : Document} (sound : d.Sound) :
    d.text.lines = d.lines.map Line.text := by
  apply Text.lines_ofLines
  · intro part member
    rcases List.mem_map.mp member with ⟨line, inside, rfl⟩
    exact (sound.line line inside).unbroken
  · intro vacant
    exact sound.nonempty (List.map_eq_nil_iff.mp vacant)

theorem Sound.lineCount_eq {d : Document} (sound : d.Sound) :
    d.lineCount = d.text.count '\n' + 1 := by
  rw [← Text.length_lines, sound.lines_text, List.length_map]
  rfl

theorem tiling?_eq_some_iff {d : Document} {index : Nat} {t : Tiling} :
    d.tiling? index = some t ↔ ∃ line, d.lines[index]? = some line ∧ line.state = some t := by
  unfold tiling?
  rw [Option.bind_eq_some_iff]

theorem reachable_covered {d : Document} (reachable : d.Reachable) :
    d.lineCount = d.text.count '\n' + 1 ∧
      ∀ index t, d.tiling? index = some t →
        t.words.length % 2 = 0 ∧
          (∀ k a b, t.words[2 * k]? = some a → t.words[2 * (k + 1)]? = some b → a < b) ∧
          ∃ part, d.text.lines[index]? = some part ∧ t.length.toNat = part.utf16.length ∧
            (t = Tiling.empty → part = []) := by
  have sound := reachable.sound
  refine ⟨sound.lineCount_eq, ?_⟩
  intro index t found
  rcases tiling?_eq_some_iff.mp found with ⟨line, there, known⟩
  have covered := (sound.line line (List.mem_of_getElem? there)).covered t known
  refine ⟨?_, fun k a b => t.words_increase, line.text, ?_, ?_, ?_⟩
  · rw [t.length_words, Nat.mul_mod_right]
  · rw [sound.lines_text, List.getElem?_map, there]
    rfl
  · rw [covered, Text.length_utf16]
  · intro vacant
    rw [vacant] at covered
    exact Text.eq_nil_of_width_eq_zero covered.symm

/-- A line that was joined from two known ones is known and covered. -/
theorem covered_after_joining :
    ∃ d, d = (ofText ['a', 'b', '\n', 'c', 'd'] default).after
        [.set 0 [⟨2, 7⟩], .set 1 [⟨1, 3⟩, ⟨2, 4⟩], .edit (.delete 1 3)] ∧
      (d.tiling? 0).map Tiling.words = some [1, 7, 2, 3, 3, 4] ∧
      d.lineCount = d.text.count '\n' + 1 ∧
      ∀ t, d.tiling? 0 = some t →
        ∃ part, d.text.lines[0]? = some part ∧ t.length.toNat = part.utf16.length := by
  have run := reachable_after (.ofText ['a', 'b', '\n', 'c', 'd'] default)
    [.set 0 [⟨2, 7⟩], .set 1 [⟨1, 3⟩, ⟨2, 4⟩], .edit (.delete 1 3)]
  rcases reachable_covered run with ⟨count, tilings⟩
  refine ⟨_, rfl, by decide +kernel, count, ?_⟩
  intro t known
  rcases tilings 0 t known with ⟨_, _, part, line, covers, _⟩
  exact ⟨part, line, covers⟩

end Document

end TiledText
