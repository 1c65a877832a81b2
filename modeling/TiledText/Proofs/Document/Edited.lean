import TiledText.Document.Command
import TiledText.Proofs.Replay

/-!
# The lines that an edit leaves

An edit puts new lines in the place of the selected ones. Their text is what
stood before and after the selection around what was inserted. Their states are
those of the replay where these cover the text, and where the replay fails no
state is known.

Whatever the states are, the text of the document is the old text with the
selected stretch replaced.
-/

namespace TiledText

attribute [ext] Outcome

namespace Edit

theorem isNoop_iff {e : Edit} : e.isNoop = true ↔ e.start = e.stop ∧ e.inserted = [] := by
  simp [isNoop]

end Edit

namespace Selection

def texts (selection : Selection) (inserted : Text) : List Text :=
  (selection.first.before ++ inserted ++ selection.last.after).lines

def edited (selection : Selection) (carry : Bool) (inserted : Text) : List Line :=
  match selection.replay carry inserted with
  | .ok states => List.zipWith Line.settle (selection.texts inserted) states
  | .error _ => (selection.texts inserted).map Line.fresh

end Selection

namespace Document

/-!
## What an edit does
-/

theorem document_replace (d : Document) (selection : Selection) (inserted : Text) :
    (d.replace selection inserted).document =
      d.splice selection (selection.edited d.settings.carrySplitTokens inserted) := by
  unfold replace Selection.edited Selection.texts
  cases selection.replay d.settings.carrySplitTokens inserted with
  | ok states =>
      rfl
  | error cause =>
      rfl

theorem settings_replace (d : Document) (selection : Selection) (inserted : Text) :
    (d.replace selection inserted).document.settings = d.settings := by
  rw [document_replace]
  rfl

theorem edit_of_selected {d : Document} {e : Edit} {selection : Selection}
    (selected : select? d.lines e.start e.stop = some selection) (change : e.isNoop = false) :
    d.edit e = d.replace selection e.inserted := by
  unfold edit
  rw [selected]
  simp [change]

theorem edit_of_noop {d : Document} {e : Edit} {selection : Selection}
    (selected : select? d.lines e.start e.stop = some selection) (noop : e.isNoop = true) :
    d.edit e = ⟨d, none⟩ := by
  unfold edit
  rw [selected]
  simp [noop]

theorem edit_of_none {d : Document} {e : Edit}
    (outside : select? d.lines e.start e.stop = none) :
    d.edit e = ⟨d, some (.editOutside e.start e.stop d.length)⟩ := by
  unfold edit
  rw [outside]

theorem settings_edit (d : Document) (e : Edit) : (d.edit e).document.settings = d.settings := by
  cases selected : select? d.lines e.start e.stop with
  | none =>
      rw [edit_of_none selected]
  | some selection =>
      cases change : e.isNoop with
      | true =>
          rw [edit_of_noop selected change]
      | false =>
          rw [edit_of_selected selected change, settings_replace]

theorem run_cons_of_none {d : Document} {e : Edit} (succeeds : (d.edit e).error = none)
    (rest : Script) : d.run (e :: rest) = (d.edit e).document.run rest := by
  rw [run]
  cases outcome : d.edit e with
  | mk after error =>
      rw [outcome] at succeeds
      cases succeeds
      rfl

theorem run_cons_of_some {d : Document} {e : Edit} {cause : DocumentError}
    (fails : (d.edit e).error = some cause) (rest : Script) : d.run (e :: rest) = d.edit e := by
  rw [run]
  cases outcome : d.edit e with
  | mk after error =>
      rw [outcome] at fails
      cases fails
      rfl

end Document

/-!
## Changes from outside

What is done to a document before a command can be done after it, if the command finds in the
changed document what it looks for.
-/

namespace Outcome

def map (change : Document → Document) (outcome : Outcome) : Outcome :=
  ⟨change outcome.document, outcome.error⟩

theorem ofExcept_map {change : Document → Document} {d : Document}
    {result result' : Except DocumentError Document} (agree : result' = result.map change) :
    ofExcept (change d) result' = (ofExcept d result).map change := by
  rw [agree]
  cases result with
  | error cause =>
      rfl
  | ok after =>
      rfl

end Outcome

namespace Document

variable {change : Document → Document} {d : Document} {line : Nat}

theorem store_map {t t' : Tiling} (width : (change d).lineWidth? line = d.lineWidth? line)
    (count : (change d).lineCount = d.lineCount) (length : t'.length = t.length)
    (set : (change d).setState line (some t') = change (d.setState line (some t))) :
    (change d).store line t' = (d.store line t).map change := by
  unfold store
  rw [width, count, length]
  cases d.lineWidth? line with
  | none =>
      rfl
  | some expected =>
      by_cases covers : t.length.toNat = expected
      · simp only [if_pos covers]
        exact congrArg Except.ok set
      · simp only [if_neg covers]
        rfl

theorem clear_map (count : (change d).lineCount = d.lineCount)
    (set : (change d).setState line none = change (d.setState line none)) :
    (change d).clear line = (d.clear line).map change := by
  unfold clear
  rw [count]
  split
  · exact congrArg Except.ok set
  · rfl

end Document

/-!
## One state for each new line

The replay gives as many states as the text has new lines, so that none of them is lost. The
first begins with the text before the selection, and the last ends with the text after it.
-/

theorem map_text_zipWith_settle {texts : List Text} {states : List LineState}
    (same : states.length = texts.length) :
    (List.zipWith Line.settle texts states).map Line.text = texts := by
  induction texts generalizing states with
  | nil =>
      simp
  | cons text rest ih =>
      cases states with
      | nil =>
          cases same
      | cons state more =>
          rw [List.zipWith_cons_cons, List.map_cons, ih (Nat.succ.inj same)]
          rfl

theorem zipWith_settle_unknown (texts : List Text) :
    List.zipWith Line.settle texts (List.replicate texts.length none) =
      texts.map Line.fresh := by
  induction texts with
  | nil =>
      rfl
  | cons text rest ih =>
      rw [List.length_cons, List.replicate_succ, List.zipWith_cons_cons, ih, List.map_cons]
      rfl

namespace Selection

theorem Sound.before {selection : Selection} (sound : selection.Sound) :
    '\n' ∉ selection.first.before :=
  fun member => sound.first.unbroken (List.mem_of_mem_take member)

theorem Sound.after {selection : Selection} (sound : selection.Sound) :
    '\n' ∉ selection.last.after :=
  fun member => sound.last.unbroken (List.mem_of_mem_drop member)

theorem texts_of_one {selection : Selection} (sound : selection.Sound) {inserted only : Text}
    (one : inserted.lines = [only]) :
    selection.texts inserted = [selection.first.before ++ only ++ selection.last.after] :=
  Text.lines_insert_one sound.before sound.after one

theorem texts_of_many {selection : Selection} (sound : selection.Sound)
    {inserted first last : Text} {middle : List Text}
    (many : inserted.lines = first :: (middle ++ [last])) :
    selection.texts inserted =
      (selection.first.before ++ first) :: (middle ++ [last ++ selection.last.after]) :=
  Text.lines_insert_many sound.before sound.after many

theorem texts_eq_cons {selection : Selection} (sound : selection.Sound) (inserted : Text) :
    ∃ more rest, selection.texts inserted = (selection.first.before ++ more) :: rest := by
  rcases inserted.one_or_many with ⟨only, one⟩ | ⟨first, middle, last, many⟩
  · rw [texts_of_one sound one, List.append_assoc]
    exact ⟨_, _, rfl⟩
  · rw [texts_of_many sound many]
    exact ⟨_, _, rfl⟩

theorem texts_eq_concat {selection : Selection} (sound : selection.Sound) (inserted : Text) :
    ∃ front rest, selection.texts inserted = rest ++ [front ++ selection.last.after] := by
  rcases inserted.one_or_many with ⟨only, one⟩ | ⟨first, middle, last, many⟩
  · rw [texts_of_one sound one]
    exact ⟨_, [], rfl⟩
  · rw [texts_of_many sound many, ← List.cons_append]
    exact ⟨_, _, rfl⟩

theorem length_texts {selection : Selection} (sound : selection.Sound) (inserted : Text) :
    (selection.texts inserted).length = inserted.lines.length := by
  rcases inserted.one_or_many with ⟨only, one⟩ | ⟨first, middle, last, many⟩
  · rw [texts_of_one sound one, one]
    rfl
  · rw [texts_of_many sound many, many]
    simp

theorem length_replay {selection : Selection} {carry : Bool} {inserted : Text}
    {states : List LineState} (replayed : selection.replay carry inserted = .ok states) :
    states.length = inserted.lines.length := by
  rcases bind_eq_ok_iff.mp replayed with ⟨state, _, done⟩
  exact length_distribute done

theorem map_text_edited_of_length {selection : Selection} {inserted : Text}
    (count : (selection.texts inserted).length = inserted.lines.length) (carry : Bool) :
    (selection.edited carry inserted).map Line.text = selection.texts inserted := by
  unfold edited
  cases replayed : selection.replay carry inserted with
  | ok states =>
      apply map_text_zipWith_settle
      rw [length_replay replayed, count]
  | error cause =>
      simp [Line.fresh, Function.comp_def]

theorem map_text_edited {selection : Selection} (sound : selection.Sound) (carry : Bool)
    (inserted : Text) :
    (selection.edited carry inserted).map Line.text = selection.texts inserted :=
  map_text_edited_of_length (length_texts sound inserted) carry

theorem length_edited {selection : Selection} (sound : selection.Sound) (carry : Bool)
    (inserted : Text) : (selection.edited carry inserted).length = inserted.lines.length := by
  rw [← length_texts sound, ← map_text_edited sound carry, List.length_map]

/-- A new line is known only from the state that the replay has for it. -/
theorem state_edited {selection : Selection} {carry : Bool} {inserted : Text} {i : Nat}
    {line : Line} {v : Tiling} (there : (selection.edited carry inserted)[i]? = some line)
    (known : line.state = some v) :
    ∃ states, selection.replay carry inserted = .ok states ∧ states[i]? = some (some v) := by
  unfold edited at there
  cases replayed : selection.replay carry inserted with
  | ok states =>
      rw [replayed] at there
      rcases List.getElem?_zipWith_eq_some.mp there with ⟨text, state, _, found, rfl⟩
      rw [(Line.state_settle_eq_some_iff.mp known).1] at found
      exact ⟨states, rfl, found⟩
  | error cause =>
      rw [replayed] at there
      rcases List.mem_map.mp (List.mem_of_getElem? there) with ⟨text, _, rfl⟩
      cases known

theorem edited_ne_nil {selection : Selection} (sound : selection.Sound) (carry : Bool)
    (inserted : Text) : selection.edited carry inserted ≠ [] := by
  intro vacant
  have texts := map_text_edited sound carry inserted
  rw [vacant] at texts
  exact Text.lines_ne_nil _ texts.symm

theorem exists_edited_eq_cons {selection : Selection} (sound : selection.Sound) (carry : Bool)
    (inserted : Text) :
    ∃ head tail more, selection.edited carry inserted = head :: tail ∧
      head.text = selection.first.before ++ more := by
  have texts := map_text_edited sound carry inserted
  rcases texts_eq_cons sound inserted with ⟨more, rest, begins⟩
  rcases List.map_eq_cons_iff.mp (texts.trans begins) with ⟨head, tail, shape, text, _⟩
  exact ⟨head, tail, more, shape, text⟩

theorem exists_edited_eq_concat {selection : Selection} (sound : selection.Sound) (carry : Bool)
    (inserted : Text) :
    ∃ init final front, selection.edited carry inserted = init ++ [final] ∧
      final.text = front ++ selection.last.after := by
  have texts := map_text_edited sound carry inserted
  rcases texts_eq_concat sound inserted with ⟨front, rest, ends⟩
  rcases List.map_eq_append_iff.mp (texts.trans ends) with ⟨init, lastly, shape, _, single⟩
  rcases List.map_eq_singleton_iff.mp single with ⟨final, rfl, text⟩
  exact ⟨init, final, front, shape, text⟩

end Selection

namespace Document

/-!
## The text that an edit leaves
-/

theorem text_splice {d : Document} {selection : Selection} {lines : List Line} {middle : Text}
    (texts : lines.map Line.text = middle.lines) :
    (d.splice selection lines).text =
      selection.first.above.flatMap (·.text ++ ['\n']) ++
        (middle ++ selection.last.below.flatMap (['\n'] ++ ·.text)) := by
  have whole := Text.ofLines_lines middle
  rw [Text.ofLines] at whole
  rw [text, splice, Text.ofLines, List.map_append, List.map_append, texts,
    intercalate_around_pieces _ _ middle.lines_ne_nil, whole, List.flatMap_map, List.flatMap_map]

theorem text_replace {d : Document} {selection : Selection} (sound : selection.Sound)
    (inserted : Text) :
    (d.replace selection inserted).document.text =
      selection.first.prior ++ inserted ++ selection.last.rest := by
  rw [document_replace, text_splice (selection.map_text_edited sound _ inserted)]
  simp [Caret.prior, Caret.rest]

end Document

end TiledText
