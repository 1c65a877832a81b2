import TiledText.Proofs.Document.Bare
import TiledText.Proofs.Storage.Replay
import TiledText.Proofs.Storage.Rope

/-!
# Edits of storage

Storage holds a document when the rope has its text and there is a state for each of its
lines, in order. An edit of storage that holds a sound document does not fault. It reports
what the edit of the document reports, and holds the document that this leaves.

The states that are taken out are those of the lines that the selection reaches, and after
the new ones are put in there is again one for every line of the new text. So every number
that the edit goes by counts lines or characters that are there.
-/

namespace TiledText

def Line.buffer (line : Line) : Option Buffer :=
  line.state.buffer

/-!
## Lists taken apart and put together
-/

namespace Checked

theorem put_eq_ok {items : List α} {index : Nat} (inside : index < items.length) (item : α) :
    put items index item = .ok (items.set index item) :=
  if_pos inside

theorem drain_eq_ok {above reached below : List α} {last : Nat} (fits : last + 1 < indexSize)
    (count : above.length + reached.length = last + 1) :
    drain (above ++ reached ++ below) above.length last = .ok (reached, above ++ below) := by
  have stop : (above ++ reached).length = last + 1 := by
    rw [List.length_append, count]
  have range : above.length ≤ last + 1 ∧ last + 1 ≤ (above ++ reached ++ below).length := by
    rw [← stop, List.length_append, List.length_append]
    omega
  rw [drain, addIndex_eq_ok fits, ok_bind, if_pos range, pure_eq_ok, List.take_left' stop,
    List.drop_left' stop, List.drop_left, List.append_assoc, List.take_left]

theorem splice_eq_ok (above below more : List α) :
    splice (above ++ below) above.length more = .ok (above ++ more ++ below) := by
  have inside : above.length ≤ (above ++ below).length := by
    rw [List.length_append]
    exact Nat.le_add_right _ _
  rw [splice, if_pos inside, List.take_left, List.drop_left]

end Checked

/-!
## States for the new lines
-/

namespace Selection

/-- The states for the new lines, before any of them is dropped. -/
def states (selection : Selection) (carry : Bool) (inserted : Text) : List LineState :=
  match selection.replay carry inserted with
  | .ok states => states
  | .error _ => List.replicate inserted.lines.length none

variable (selection : Selection) (carry : Bool) (inserted : Text)

theorem length_states : (selection.states carry inserted).length = inserted.lines.length := by
  unfold states
  cases replayed : selection.replay carry inserted with
  | ok states =>
      exact length_replay replayed
  | error cause =>
      exact List.length_replicate

theorem edited_eq_zipWith {selection : Selection} (sound : selection.Sound) :
    selection.edited carry inserted =
      List.zipWith Line.settle (selection.texts inserted) (selection.states carry inserted) := by
  unfold edited states
  cases selection.replay carry inserted with
  | ok states =>
      rfl
  | error cause =>
      rw [← length_texts sound, zipWith_settle_unknown]

theorem statesOf_replay :
    Storage.statesOf inserted.lines.length
        ((selection.replay carry inserted).map (List.map LineState.buffer)) =
      (selection.states carry inserted).map LineState.buffer := by
  unfold states
  cases selection.replay carry inserted with
  | ok states =>
      rfl
  | error cause =>
      show List.replicate _ none = (List.replicate _ none).map LineState.buffer
      rw [List.map_replicate]
      rfl

end Selection

namespace Document

theorem reportOf_replay (d : Document) (selection : Selection) (inserted : Text)
    (form : List LineState → α) :
    Storage.reportOf d.settings.recoverFromErrors
        ((selection.replay d.settings.carrySplitTokens inserted).map form) =
      (d.replace selection inserted).error := by
  unfold replace
  cases selection.replay d.settings.carrySplitTokens inserted with
  | ok states =>
      rfl
  | error cause =>
      rfl

theorem length_edit_le {d : Document} (sound : d.Sound) (e : Edit) :
    (d.edit e).document.length ≤ d.length + e.insertedLength := by
  by_cases range : e.start ≤ e.stop ∧ e.stop ≤ d.length
  · have count := length_edit sound range.1 range.2
    omega
  · have outside : e.stop < e.start ∨ d.length < e.stop := by omega
    rw [edit_of_none ((select?_eq_none_iff sound).mpr outside)]
    exact Nat.le_add_right _ _

end Document

namespace Storage

open Checked

variable {R : Type} [Rope R]

/-!
## Dropping states
-/

theorem demote_eq_ok {rope : R} {above below : List (Option Buffer)} {text : Text}
    (width : Rope.lineWidth? rope above.length = .ok (some text.width)) (state : LineState) :
    demote rope (above ++ state.buffer :: below) above.length =
      .ok (above ++ (Line.settle text state).buffer :: below) := by
  have there : (above ++ state.buffer :: below)[above.length]? = some state.buffer := by
    rw [List.getElem?_append_right (Nat.le_refl _), Nat.sub_self]
    rfl
  rw [demote, width, ok_bind, there]
  cases state with
  | none =>
      rfl
  | some t =>
      show (t.buffer.length >>= _) = _
      rw [Buffer.length_buffer, ok_bind]
      by_cases covers : t.length.toNat = text.width
      · have kept : Line.covers text t = true := by simp [Line.covers, covers]
        rw [if_pos covers, Line.settle, Option.filter_some_pos kept]
        rfl
      · have dropped : Line.covers text t = false := by simp [Line.covers, covers]
        rw [if_neg covers, Line.settle, Option.filter_some_neg dropped, pure_eq_ok,
          List.set_append_right _ _ (Nat.le_refl _), Nat.sub_self]
        rfl

theorem demoteFrom_eq_ok {rope : R} {above below : List (Option Buffer)} {texts : List Text}
    {states : List LineState} (same : states.length = texts.length)
    (widths : ∀ i text, texts[i]? = some text →
      Rope.lineWidth? rope (above.length + i) = .ok (some text.width)) :
    demoteFrom rope (above ++ states.map LineState.buffer ++ below) above.length texts.length =
      .ok (above ++ (List.zipWith Line.settle texts states).map Line.buffer ++ below) := by
  induction texts generalizing above states with
  | nil =>
      cases List.length_eq_zero_iff.mp same
      rfl
  | cons text rest ih =>
      cases states with
      | nil =>
          cases same
      | cons state more =>
          -- The line that is done joins those above.
          let top := above ++ [(Line.settle text state).buffer]
          have deeper : top.length = above.length + 1 := List.length_append
          have under : ∀ i other, rest[i]? = some other →
              Rope.lineWidth? rope (top.length + i) = .ok (some other.width) := by
            intro i other there
            rw [deeper, Nat.add_assoc, Nat.add_comm 1 i]
            exact widths (i + 1) other there
          have joined : ∀ items : List (Option Buffer),
              above ++ (Line.settle text state).buffer :: items ++ below =
                top ++ items ++ below := by
            intro items
            rw [List.append_assoc, List.append_assoc, List.append_assoc]
            rfl
          have later := ih (Nat.succ.inj same) under
          rw [List.map_cons, List.append_assoc, List.cons_append, List.length_cons, demoteFrom,
            demote_eq_ok (widths 0 text rfl) state, ok_bind, ← deeper, ← List.cons_append,
            ← List.append_assoc, joined, later, List.zipWith_cons_cons, List.map_cons, joined]

/-!
## Storage of a document
-/

/-- The storage has the text of the document, and for each line the state of that line. -/
structure Holds (s : Storage R) (d : Document) : Prop where
  text : Rope.text s.rope = d.text
  states : s.states = d.lines.map Line.buffer
  settings : s.settings = d.settings

/-- There is no fault, and what comes of a command is what comes of it for the document. -/
def Agrees (result : Checked (Outcome R)) (outcome : TiledText.Outcome) : Prop :=
  ∃ left, result = .ok ⟨left, outcome.error⟩ ∧ left.Holds outcome.document

variable {s : Storage R} {d : Document} {e : Edit} {selection : Selection}

/-- There is room for the number of the line after the last new one. -/
theorem past_lt_indexSize (sound : d.Sound) (fits : d.length + e.insertedLength < addressSize)
    (selected : select? d.lines e.start e.stop = some selection) :
    selection.last.above.length + 1 < indexSize ∧
      selection.first.above.length + e.inserted.lines.length < indexSize := by
  rcases lines_eq_around selected with ⟨reached, shape, ordered, count⟩
  have before := sound.lineCount_le
  have new : e.inserted.lines.length ≤ e.insertedLength + 1 := by
    rw [Text.length_lines]
    exact Nat.succ_le_succ List.count_le_length
  have space := addressSize_lt_indexSize
  rw [Document.lineCount, shape, List.length_append, List.length_append, count] at before
  constructor
  · omega
  · omega

/-- The states taken out begin and end with those that the replay goes on. -/
theorem exists_drained (holds : s.Holds d) (sound : d.Sound)
    (fits : d.length + e.insertedLength < addressSize)
    (selected : select? d.lines e.start e.stop = some selection) :
    ∃ touched,
      drain s.states selection.first.above.length selection.last.above.length =
        .ok (touched,
          selection.first.above.map Line.buffer ++ selection.last.below.map Line.buffer) ∧
      touched.head?.join = selection.first.line.state.buffer ∧
      touched.tail.getLast? = (lastState? selection).map LineState.buffer := by
  rcases exists_touched selected with ⟨touched, shape, count, head, final⟩
  have start : (selection.first.above.map Line.buffer).length = selection.first.above.length :=
    List.length_map ..
  refine ⟨touched.map Line.buffer, ?_, ?_, ?_⟩
  · rw [holds.states, shape, List.map_append, List.map_append, ← start]
    apply drain_eq_ok (past_lt_indexSize sound fits selected).1
    rw [start, List.length_map, count]
  · rw [List.head?_map, head]
    rfl
  · rw [← List.map_tail, List.getLast?_map, final, lastState?]
    split
    · rfl
    · rfl

variable [LawfulRope R]

/-!
## Edits
-/

theorem exists_replaced (rope : R) {start stop : Nat} (ordered : start ≤ stop)
    (inside : stop ≤ (Rope.text rope).length) (inserted : Text) :
    ∃ left changed, Rope.remove rope start stop = .ok left ∧
      Rope.insert left start inserted = .ok changed ∧
      Rope.text changed =
        (Rope.text rope).take start ++ inserted ++ (Rope.text rope).drop stop := by
  rcases LawfulRope.remove_eq rope ordered inside with ⟨left, removed, remains⟩
  have front : ((Rope.text rope).take start).length = start :=
    List.length_take_of_le (Nat.le_trans ordered inside)
  have room : start ≤ (Rope.text left).length := by
    rw [remains, List.length_append, front]
    exact Nat.le_add_right _ _
  rcases LawfulRope.insert_eq left room inserted with ⟨changed, widened, text⟩
  rw [remains, List.take_left' front, List.drop_left' front] at text
  exact ⟨left, changed, removed, widened, text⟩

theorem lineWidth?_edited (sound : d.Sound) (fits : d.length + e.insertedLength < addressSize)
    (selected : select? d.lines e.start e.stop = some selection) (change : e.isNoop = false)
    {rope : R} (holds : Rope.text rope = (d.edit e).document.text) {i : Nat} {text : Text}
    (there : (selection.texts e.inserted)[i]? = some text) :
    Rope.lineWidth? rope (selection.first.above.length + i) = .ok (some text.width) := by
  have after := Document.sound_edit sound e
  have short := Nat.lt_of_le_of_lt (Document.length_edit_le sound e) fits
  have texts := selection.map_text_edited (Document.sound_of_select? sound selected)
    d.settings.carrySplitTokens e.inserted
  rw [← texts, List.getElem?_map, Option.map_eq_some_iff] at there
  rcases there with ⟨line, found, rfl⟩
  have few := (List.getElem?_eq_some_iff.mp found).1
  have lines : (d.edit e).document.lines[selection.first.above.length + i]? = some line := by
    rw [Document.edit_of_selected selected change, Document.document_replace, Document.splice,
      List.append_assoc, List.getElem?_append_right (Nat.le_add_right _ _),
      Nat.add_sub_cancel_left, List.getElem?_append_left few, found]
  rw [Rope.lineWidth?_eq_ok after holds short, Document.lineWidth?, lines]
  rfl

theorem fill_eq_ok (sound : d.Sound) (fits : d.length + e.insertedLength < addressSize)
    (selected : select? d.lines e.start e.stop = some selection) (change : e.isNoop = false)
    {rope : R} (holds : Rope.text rope = (d.edit e).document.text) :
    fill rope (selection.first.above.map Line.buffer ++ selection.last.below.map Line.buffer)
        selection.first.above.length e.inserted.lines.length
        ((selection.states d.settings.carrySplitTokens e.inserted).map LineState.buffer) =
      .ok ((d.edit e).document.lines.map Line.buffer) := by
  have inner := Document.sound_of_select? sound selected
  have start : (selection.first.above.map Line.buffer).length = selection.first.above.length :=
    List.length_map ..
  have texts := selection.length_texts inner e.inserted
  have same := selection.length_states d.settings.carrySplitTokens e.inserted
  have space := (past_lt_indexSize sound fits selected).2
  have widths : ∀ i text, (selection.texts e.inserted)[i]? = some text →
      Rope.lineWidth? rope ((selection.first.above.map Line.buffer).length + i) =
        .ok (some text.width) := by
    intro i text there
    rw [start]
    exact lineWidth?_edited sound fits selected change holds there
  rw [← texts] at same space ⊢
  rw [fill, ← start, splice_eq_ok, ok_bind, start, addIndex_eq_ok space, ok_bind,
    Nat.add_sub_cancel_left, ← start, demoteFrom_eq_ok same widths,
    ← selection.edited_eq_zipWith _ _ inner, ← List.map_append, ← List.map_append,
    Document.edit_of_selected selected change, Document.document_replace]
  rfl

theorem replace_agrees (holds : s.Holds d) (sound : d.Sound)
    (fits : d.length + e.insertedLength < addressSize)
    (selected : select? d.lines e.start e.stop = some selection) (change : e.isNoop = false) :
    Agrees (s.replace e) (d.edit e) := by
  rcases select?_eq_some_iff.mp selected with ⟨first, last, ordered⟩
  have bound := ((exists_select?_iff sound.nonempty).mp ⟨selection, selected⟩).2
  have inside : e.stop ≤ (Rope.text s.rope).length := by
    rw [holds.text]
    exact bound
  rcases exists_drained holds sound fits selected with ⟨touched, drained, head, final⟩
  rcases exists_replaced s.rope ordered inside e.inserted with
    ⟨left, rope, removed, widened, text⟩
  have after : Rope.text rope = (d.edit e).document.text := by
    rw [text, holds.text, Document.text_edit sound ordered bound]
  refine ⟨⟨rope, (d.edit e).document.lines.map Line.buffer, s.settings⟩, ?_, after, rfl, ?_⟩
  · rw [replace, Rope.position_eq_ok sound holds.text first, ok_bind,
      Rope.position_eq_ok sound holds.text last, ok_bind]
    show (drain s.states selection.first.above.length selection.last.above.length >>= _) = _
    rw [drained, ok_bind]
    show (Rope.remove s.rope e.start e.stop >>= _) = _
    rw [removed, ok_bind, widened, ok_bind, head, final, holds.settings, replay_buffer]
    show (fill rope _ selection.first.above.length _ (statesOf _ _) >>= _) = _
    rw [selection.statesOf_replay, fill_eq_ok sound fits selected change after, ok_bind,
      d.reportOf_replay, Document.edit_of_selected selected change]
    rfl
  · rw [Document.settings_edit]
    exact holds.settings

theorem edit_agrees (holds : s.Holds d) (sound : d.Sound)
    (fits : d.length + e.insertedLength < addressSize) : Agrees (s.edit e) (d.edit e) := by
  have length : Rope.length s.rope = d.length := by
    rw [LawfulRope.length_eq, holds.text]
    rfl
  cases selected : select? d.lines e.start e.stop with
  | none =>
      have outside := (Document.select?_eq_none_iff sound).mp selected
      refine ⟨s, ?_, ?_⟩
      · rw [edit, length, if_pos outside, Document.edit_of_none selected]
      · rw [Document.edit_of_none selected]
        exact holds
  | some selection =>
      have inside : ¬ (e.stop < e.start ∨ Rope.length s.rope < e.stop) := by
        rw [length, ← Document.select?_eq_none_iff sound, selected]
        exact Option.some_ne_none selection
      cases change : e.isNoop with
      | true =>
          refine ⟨s, ?_, ?_⟩
          · rw [edit, if_neg inside, if_pos change, Document.edit_of_noop selected change]
          · rw [Document.edit_of_noop selected change]
            exact holds
      | false =>
          rw [edit, if_neg inside, if_neg (Bool.eq_false_iff.mp change)]
          exact replace_agrees holds sound fits selected change

end Storage

end TiledText
