import TiledText.Proofs.Document.Errors
import TiledText.Proofs.Refinement

/-!
# Edits of a document as edits of lists of tags

Unless a stored tiling begins with a hairline, an edit for which there is room does
to the tags of the lines what the abstract edit does. This says also which of the
new lines are known, with line breaks or without, and wherever the edit starts
and ends.
-/

namespace TiledText

theorem map_tags?_unknown (texts : List Text) :
    (List.zipWith Line.settle texts (List.replicate texts.length none)).map Line.tags? =
      List.replicate texts.length none := by
  rw [zipWith_settle_unknown, List.map_map]
  exact List.map_const'

namespace Selection

/-!
## The tags of the new lines
-/

theorem Sound.map_tags?_of_one {selection : Selection} (sound : selection.Sound)
    (plain : selection.Plain) {inserted only : Text} (room : selection.Roomy inserted)
    (one : inserted.lines = [only]) {carry : Bool} {state : LineState} {states : List LineState}
    (remains : selection.joined = .ok state)
    (done : distribute carry selection.first.position.column state [only] = .ok states) :
    (List.zipWith Line.settle (selection.texts inserted) states).map Line.tags? =
      placeTags carry selection.first.before.width (state.map Tiling.tags) [only.width] := by
  rcases distribute_one.mp done with ⟨wider, widened, rfl⟩
  have width := room.toNat_insertedWidth (by rw [one]; exact List.mem_singleton_self only)
  rw [texts_of_one sound one, placeTags, List.zipWith_cons_cons, List.zipWith_nil_left,
    List.map_singleton]
  congr 1
  apply tags?_settle_insert widened
  intro j known
  rw [known] at remains
  refine ⟨plain.joined remains, sound.toNat_column remains, width, ?_⟩
  rw [sound.length_joined remains, Text.width_append, Text.width_append, Nat.add_right_comm]

theorem Sound.map_tags?_of_many {selection : Selection} (sound : selection.Sound)
    (plain : selection.Plain) {inserted first last : Text} {middle : List Text}
    (room : selection.Roomy inserted) (many : inserted.lines = first :: (middle ++ [last]))
    {carry : Bool} {state : LineState} {states : List LineState}
    (remains : selection.joined = .ok state)
    (done : distribute carry selection.first.position.column state
      (first :: (middle ++ [last])) = .ok states) :
    (List.zipWith Line.settle (selection.texts inserted) states).map Line.tags? =
      placeTags carry selection.first.before.width (state.map Tiling.tags)
        (first.width :: (middle.map Text.width ++ [last.width])) := by
  rcases distribute_many.mp done with ⟨moved, kept, head, tail, taken, cut, front, back, rfl⟩
  rw [texts_of_many sound many, placeTags_many, List.zipWith_cons_cons,
    List.zipWith_append (by simp), List.map_cons, List.map_append, map_tags?_unknown,
    List.length_map, List.zipWith_cons_cons, List.zipWith_nil_left, List.map_singleton]
  have place : ∀ j, state = some j →
      selection.first.position.column.toNat = selection.first.before.width := by
    intro j known
    rw [known] at remains
    exact sound.toNat_column remains
  have firstWidth : (insertedWidth first).toNat = Text.width first :=
    room.toNat_insertedWidth (by simp [many])
  have lastWidth : (insertedWidth last).toNat = Text.width last :=
    room.toNat_insertedWidth (by simp [many])
  rw [← map_tags_deleteEnding cut place, ← map_tags_carried taken place]
  congr 1
  · apply tags?_settle_insert front
    intro k known
    rw [known] at cut
    rcases LineState.through_eq_some_iff.mp cut with ⟨j, rfl, deleted⟩
    refine ⟨Tiling.plain_delete deleted (plain.joined remains), place j rfl, firstWidth, ?_⟩
    rw [Tiling.length_deleteEnding (sound.column_le_length remains) deleted, place j rfl,
      Text.width_append]
  · congr 2
    apply tags?_settle_insert back
    intro m known
    rw [known] at taken
    rcases carried_eq_some_iff.mp taken with ⟨_, j, rfl, deleted⟩
    refine ⟨Tiling.plain_delete deleted (plain.joined remains), rfl, lastWidth, ?_⟩
    rw [Tiling.length_deleteBeginning deleted, place j rfl, sound.length_joined remains,
      Text.width_append, Nat.add_sub_cancel_left, Nat.add_comm]

theorem Sound.map_tags?_edited {selection : Selection} (sound : selection.Sound)
    (plain : selection.Plain) {inserted : Text} (room : selection.Roomy inserted)
    {carry : Bool} {states : List LineState}
    (replayed : selection.replay carry inserted = .ok states) :
    (selection.edited carry inserted).map Line.tags? =
      placeTags carry selection.first.before.width
        (joinTags selection.first.line.tags? selection.last.line.tags?
          selection.first.before.width selection.last.before.width)
        (inserted.lines.map Text.width) := by
  rcases bind_eq_ok_iff.mp replayed with ⟨state, remains, done⟩
  have edited : selection.edited carry inserted =
      List.zipWith Line.settle (selection.texts inserted) states := by
    rw [Selection.edited, replayed]
  rw [edited, ← sound.map_tags_joined remains]
  rcases inserted.one_or_many with ⟨only, one⟩ | ⟨first, middle, last, many⟩
  · rw [one] at done
    rw [sound.map_tags?_of_one plain room one remains done, one, List.map_singleton]
  · rw [many] at done
    rw [sound.map_tags?_of_many plain room many remains done, many, List.map_cons,
      List.map_append, List.map_singleton]

end Selection

namespace Document

/-!
## The edit refined

An edit for which there is room refines the abstract edit of the tags, as long as no stored
tiling begins with a hairline. Only the selected lines change.
-/

theorem plain_of_select? {d : Document}
    (plain : ∀ line ∈ d.lines, ∀ t, line.state = some t → t.hairline = false) {start stop : Nat}
    {selection : Selection} (selected : select? d.lines start stop = some selection) :
    selection.Plain := by
  rcases select?_eq_some_iff.mp selected with ⟨first, last, _⟩
  exact ⟨plain _ (line_mem_of_caret? first), plain _ (line_mem_of_caret? last)⟩

theorem edit_refines {d : Document} (reachable : d.Reachable)
    (plain : ∀ line ∈ d.lines, ∀ t, line.state = some t → t.hairline = false) {e : Edit}
    (ordered : e.start ≤ e.stop) (bound : e.stop ≤ d.length) (change : e.isNoop = false)
    (room : d.text.width + e.inserted.width < UInt32.size) :
    ∃ first last edited, caret? d.lines e.start = some first ∧
      caret? d.lines e.stop = some last ∧ (d.edit e).error = none ∧
      (d.edit e).document = { d with lines := first.above ++ edited ++ last.below } ∧
      edited.map Line.text = (first.before ++ e.inserted ++ last.after).lines ∧
      edited.map Line.tags? =
        placeTags d.settings.carrySplitTokens first.before.width
          (joinTags first.line.tags? last.line.tags? first.before.width last.before.width)
          (e.inserted.lines.map Text.width) := by
  have sound := reachable.sound
  rcases (exists_select?_iff sound.nonempty).mpr ⟨ordered, bound⟩ with ⟨selection, selected⟩
  rcases select?_eq_some_iff.mp selected with ⟨first, last, _⟩
  have inner := sound_of_select? sound selected
  have space := roomy_of_select? selected room
  have smooth := plain_of_select? plain selected
  rcases inner.replay_eq space d.settings.carrySplitTokens with
    ⟨_, states, replayed⟩ | ⟨clash, _⟩
  · rw [edit_of_selected selected change]
    exact ⟨selection.first, selection.last, _, first, last, error_replace_of_ok replayed,
      document_replace d selection e.inserted, selection.map_text_edited inner _ _,
      inner.map_tags?_edited smooth space replayed⟩
  · exact absurd clash smooth.not_clashes

def knownPair : Document :=
  (ofText ['a', 'b', '\n', 'c', 'd'] default).after [.set 0 [⟨2, 7⟩], .set 1 [⟨2, 8⟩]]

/-- Text put in the place of a line break takes its tags from both sides of it. -/
theorem edit_refines_around_break :
    (knownPair.edit (.replace 1 4 ['x', '\n', 'y'])).document.lines.map Line.tags? =
      [some [7, 7], some [8, 8]] := by
  have run : knownPair.Reachable := reachable_after (.ofText _ _) _
  rcases edit_refines (e := .replace 1 4 ['x', '\n', 'y']) run (by decide +kernel) (by decide)
    (by decide +kernel) (by decide +kernel) (by decide +kernel)
    with ⟨first, last, edited, start, stop, _, document, _, tags⟩
  have abstract : ∀ first ∈ caret? knownPair.lines 1, ∀ last ∈ caret? knownPair.lines 4,
      first.above = [] ∧ last.below = [] ∧
        placeTags knownPair.settings.carrySplitTokens first.before.width
          (joinTags first.line.tags? last.line.tags? first.before.width last.before.width)
          ((Edit.replace 1 4 ['x', '\n', 'y']).inserted.lines.map Text.width) =
            [some [7, 7], some [8, 8]] := by
    decide +kernel
  rcases abstract first start last stop with ⟨top, bottom, placed⟩
  rw [document, ← placed, ← tags]
  show (first.above ++ edited ++ last.below).map Line.tags? = edited.map Line.tags?
  rw [top, bottom, List.nil_append, List.append_nil]

end Document

end TiledText
