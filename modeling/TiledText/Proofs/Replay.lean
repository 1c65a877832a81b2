import TiledText.Document.Command
import TiledText.Proofs.Line
import TiledText.Proofs.Tiling.Deletion
import TiledText.Proofs.Tiling.Insertion
import TiledText.Proofs.Tiling.Joining

/-!
# What a replay leaves known

A replay returns one state for each inserted line. A state that is known comes
from states that were known, and its tags are theirs where text survived: the
first line begins with the tags before the selection, and the last line ends with
the tags after it.

The laws are stated for replays that succeed. They say nothing about the width of
what was inserted, so they hold even where a width had to be clamped.
-/

namespace TiledText

/-!
## Results in sequence

A state goes through an operation if it is known, and an unknown one stays unknown.
-/

theorem bind_eq_ok_iff {x : Except ε α} {f : α → Except ε β} {b : β} :
    (x >>= f) = .ok b ↔ ∃ a, x = .ok a ∧ f a = .ok b := by
  cases x with
  | error cause =>
      constructor
      · intro impossible
        cases impossible
      · intro found
        rcases found with ⟨_, impossible, _⟩
        cases impossible
  | ok a =>
      constructor
      · intro rest
        exact ⟨a, rfl, rest⟩
      · intro found
        rcases found with ⟨_, same, rest⟩
        cases same
        exact rest

theorem map_some_eq_ok_iff {x : Except ε α} {a : α} :
    x.map some = .ok (some a) ↔ x = .ok a := by
  cases x with
  | error cause =>
      constructor
      · intro impossible
        cases impossible
      · intro impossible
        cases impossible
  | ok b =>
      constructor
      · intro same
        cases same
        rfl
      · intro same
        cases same
        rfl

namespace LineState

theorem through_eq_some_iff {change : Tiling → Except TilingError Tiling} {state : LineState}
    {u : Tiling} :
    state.through change = .ok (some u) ↔ ∃ t, state = some t ∧ change t = .ok u := by
  cases state with
  | none =>
      simp [through]
  | some t =>
      rw [through, map_some_eq_ok_iff]
      simp

theorem through_eq_none_iff {change : Tiling → Except TilingError Tiling} {state : LineState} :
    state.through change = .ok none ↔ state = none := by
  cases state with
  | none =>
      simp [through]
  | some t =>
      rw [through]
      cases change t with
      | error cause =>
          simp [Except.map]
      | ok u =>
          simp [Except.map]

theorem append_none (first : LineState) : first.append none = .ok none := by
  cases first with
  | none =>
      rfl
  | some t =>
      rfl

theorem append_eq_some_iff {first second : LineState} {v : Tiling} :
    first.append second = .ok (some v) ↔
      ∃ t u, first = some t ∧ second = some u ∧ t.append u = .ok v := by
  cases first with
  | none =>
      simp [append]
  | some t =>
      cases second with
      | none =>
          simp [append]
      | some u =>
          rw [append, map_some_eq_ok_iff]
          simp

theorem append_eq_none_iff {first second : LineState} :
    first.append second = .ok none ↔ first = none ∨ second = none := by
  cases first with
  | none =>
      simp [append]
  | some t =>
      cases second with
      | none =>
          simp [append]
      | some u =>
          rw [append]
          cases t.append u with
          | error cause =>
              simp [Except.map]
          | ok v =>
              simp [Except.map]

end LineState

/-!
## The ends of a tiling
-/

namespace Tiling

theorem tags_deleteEnding {t u : Tiling} {start : UInt32}
    (deleted : t.deleteEnding start = .ok u) : u.tags = t.tags.take start.toNat := by
  rw [tags_delete deleted, ← length_tags, List.drop_length, List.append_nil]

theorem tags_deleteBeginning {t u : Tiling} {stop : UInt32}
    (deleted : t.deleteBeginning stop = .ok u) : u.tags = t.tags.drop stop.toNat := by
  rw [tags_delete deleted, UInt32.toNat_zero, List.take_zero, List.nil_append]

end Tiling

/-!
## Joining what remains
-/

/-- The line that remains has the tags before the selection and the tags after it. -/
theorem tags_joined {selection : Selection} {j : Tiling} (lies : selection.Lies)
    (remains : selection.joined = .ok (some j)) :
    ∃ t u, selection.first.line.state = some t ∧ selection.last.line.state = some u ∧
      j.tags = t.tags.take selection.first.position.column.toNat ++
        u.tags.drop selection.last.position.column.toNat := by
  unfold Selection.joined at remains
  cases lies with
  | inside within _ line _ _ =>
      rw [if_pos within] at remains
      rcases LineState.through_eq_some_iff.mp remains with ⟨t, known, deleted⟩
      exact ⟨t, t, known, by rw [line, known], Tiling.tags_delete deleted⟩
  | across _ within _ _ =>
      rw [if_neg (by simp [within])] at remains
      rcases bind_eq_ok_iff.mp remains with ⟨head, cut, rest⟩
      rcases bind_eq_ok_iff.mp rest with ⟨tail, cut', joined⟩
      rcases LineState.append_eq_some_iff.mp joined with ⟨h, b, rfl, rfl, appended⟩
      rcases LineState.through_eq_some_iff.mp cut with ⟨t, first, ending⟩
      rcases LineState.through_eq_some_iff.mp cut' with ⟨u, last, beginning⟩
      refine ⟨t, u, first, last, ?_⟩
      rw [Tiling.tags_append appended, Tiling.tags_deleteEnding ending,
        Tiling.tags_deleteBeginning beginning]

theorem unknown_joined {selection : Selection} (remains : selection.joined = .ok none) :
    selection.first.line.state = none ∨ selection.last.line.state = none := by
  unfold Selection.joined at remains
  split at remains
  case isTrue within =>
    exact Or.inl (LineState.through_eq_none_iff.mp remains)
  case isFalse across =>
    rcases bind_eq_ok_iff.mp remains with ⟨head, cut, rest⟩
    rcases bind_eq_ok_iff.mp rest with ⟨tail, cut', joined⟩
    cases LineState.append_eq_none_iff.mp joined with
    | inl missing =>
        rw [missing] at cut
        exact Or.inl (LineState.through_eq_none_iff.mp cut)
    | inr missing =>
        rw [missing] at cut'
        exact Or.inr (LineState.through_eq_none_iff.mp cut')

/-!
## Distributing over the new lines

Text without a newline widens the line. Text with newlines splits it, and each end widens by
its part of the text.
-/

theorem distribute_one {carry : Bool} {column : UInt32} {state : LineState} {only : Text}
    {states : List LineState} :
    distribute carry column state [only] = .ok states ↔
      ∃ wider, state.insert column (insertedWidth only) = .ok wider ∧ states = [wider] := by
  unfold distribute
  rw [bind_eq_ok_iff]
  constructor
  · intro found
    rcases found with ⟨wider, inserted, same⟩
    cases same
    exact ⟨wider, inserted, rfl⟩
  · intro found
    rcases found with ⟨wider, inserted, rfl⟩
    exact ⟨wider, inserted, rfl⟩

/-- The state that goes over to the last new line. -/
def carried (carry : Bool) (column : UInt32) (state : LineState) :
    Except TilingError LineState :=
  if carry then state.deleteBeginning column else .ok none

theorem carried_eq_some_iff {carry : Bool} {column : UInt32} {state : LineState} {m : Tiling} :
    carried carry column state = .ok (some m) ↔
      carry = true ∧ ∃ j, state = some j ∧ j.deleteBeginning column = .ok m := by
  cases carry with
  | false =>
      simp [carried]
  | true =>
      rw [carried, if_pos rfl, LineState.deleteBeginning, LineState.through_eq_some_iff]
      simp

/-- Text with newlines is distributed in four steps. -/
theorem distribute_concat (carry : Bool) (column : UInt32) (state : LineState)
    (first last : Text) (middle : List Text) :
    distribute carry column state (first :: (middle ++ [last])) = do
      let moved ← carried carry column state
      let kept ← state.deleteEnding column
      let head ← kept.insert column (insertedWidth first)
      let tail ← moved.insert 0 (insertedWidth last)
      return head :: (List.replicate middle.length none ++ [tail]) := by
  cases middle with
  | nil =>
      cases carry with
      | false =>
          rfl
      | true =>
          rfl
  | cons second more =>
      have final : (second :: (more ++ [last])).getLast (List.cons_ne_nil _ _) = last := by
        exact List.getLast_concat (l := second :: more)
      cases carry with
      | false =>
          simp [distribute, carried, final]
      | true =>
          simp [distribute, carried, final]

theorem distribute_many {carry : Bool} {column : UInt32} {state : LineState}
    {first last : Text} {middle : List Text} {states : List LineState} :
    distribute carry column state (first :: (middle ++ [last])) = .ok states ↔
      ∃ moved kept head tail, carried carry column state = .ok moved ∧
        state.deleteEnding column = .ok kept ∧
        kept.insert column (insertedWidth first) = .ok head ∧
        moved.insert 0 (insertedWidth last) = .ok tail ∧
        states = head :: (List.replicate middle.length none ++ [tail]) := by
  rw [distribute_concat]
  simp only [bind_eq_ok_iff]
  constructor
  · intro found
    rcases found with ⟨moved, taken, kept, cut, head, front, tail, back, same⟩
    cases same
    exact ⟨moved, kept, head, tail, taken, cut, front, back, rfl⟩
  · intro found
    rcases found with ⟨moved, kept, head, tail, taken, cut, front, back, rfl⟩
    exact ⟨moved, taken, kept, cut, head, front, tail, back, rfl⟩

theorem length_distribute {carry : Bool} {column : UInt32} {state : LineState}
    {pieces : List Text} {states : List LineState}
    (done : distribute carry column state pieces = .ok states) :
    states.length = pieces.length := by
  cases pieces with
  | nil =>
      cases done
      rfl
  | cons first rest =>
      cases rest with
      | nil =>
          rcases distribute_one.mp done with ⟨wider, _, rfl⟩
          rfl
      | cons second more =>
          rcases exists_middle first second more with ⟨middle, last, same⟩
          rw [same] at done ⊢
          rcases distribute_many.mp done with ⟨_, _, head, tail, _, _, _, _, rfl⟩
          simp

theorem take_tags_distribute {carry : Bool} {column : UInt32} {state : LineState}
    {pieces : List Text} {states : List LineState} {v : Tiling}
    (done : distribute carry column state pieces = .ok states)
    (known : states.head? = some (some v)) :
    ∃ j, state = some j ∧ v.tags.take column.toNat = j.tags.take column.toNat := by
  cases pieces with
  | nil =>
      cases done
      cases known
  | cons first rest =>
      cases rest with
      | nil =>
          rcases distribute_one.mp done with ⟨wider, widened, rfl⟩
          cases known
          rcases LineState.through_eq_some_iff.mp widened with ⟨j, before, inserted⟩
          exact ⟨j, before, Tiling.take_tags_insert inserted⟩
      | cons second more =>
          rcases exists_middle first second more with ⟨middle, last, shape⟩
          rw [shape] at done
          rcases distribute_many.mp done with ⟨_, kept, head, _, _, cut, widened, _, rfl⟩
          cases known
          rcases LineState.through_eq_some_iff.mp widened with ⟨k, rfl, inserted⟩
          rcases LineState.through_eq_some_iff.mp cut with ⟨j, before, deleted⟩
          refine ⟨j, before, ?_⟩
          rw [Tiling.take_tags_insert inserted, Tiling.tags_deleteEnding deleted, List.take_take,
            Nat.min_self]

theorem drop_tags_distribute {carry : Bool} {column : UInt32} {state : LineState}
    {pieces : List Text} {states : List LineState} {v : Tiling}
    (done : distribute carry column state pieces = .ok states)
    (known : states.getLast? = some (some v)) :
    ∃ j, state = some j ∧ j.tags.drop column.toNat <:+ v.tags := by
  cases pieces with
  | nil =>
      cases done
      cases known
  | cons first rest =>
      cases rest with
      | nil =>
          rcases distribute_one.mp done with ⟨wider, widened, rfl⟩
          cases known
          rcases LineState.through_eq_some_iff.mp widened with ⟨j, before, inserted⟩
          refine ⟨j, before, ?_⟩
          rw [← Tiling.drop_tags_insert inserted]
          exact List.drop_suffix _ _
      | cons second more =>
          rcases exists_middle first second more with ⟨middle, last, shape⟩
          rw [shape] at done
          rcases distribute_many.mp done with ⟨moved, _, head, tail, taken, _, _, widened, rfl⟩
          rw [← List.cons_append, List.getLast?_concat] at known
          cases known
          rcases LineState.through_eq_some_iff.mp widened with ⟨m, rfl, inserted⟩
          rcases carried_eq_some_iff.mp taken with ⟨_, j, before, deleted⟩
          refine ⟨j, before, ?_⟩
          have whole := Tiling.drop_tags_insert inserted
          rw [UInt32.toNat_zero, List.drop_zero, Tiling.tags_deleteBeginning deleted] at whole
          rw [← whole]
          exact List.drop_suffix _ _

/-!
## Tags that survive a replay

The first new line begins with the tags from before the selection, and the last one ends with
those from after it.
-/

namespace Selection

theorem replay_of_joined {selection : Selection} {state : LineState}
    (remains : selection.joined = .ok state) (carry : Bool) (inserted : Text) :
    selection.replay carry inserted =
      distribute carry selection.first.position.column state inserted.lines := by
  rw [replay, remains]
  rfl

theorem replay_of_error {selection : Selection} {cause : TilingError}
    (failed : selection.joined = .error cause) (carry : Bool) (inserted : Text) :
    selection.replay carry inserted = .error cause := by
  rw [replay, failed]
  rfl

structure Sound (selection : Selection) : Prop where
  lies : selection.Lies
  first : selection.first.line.Sound
  last : selection.last.line.Sound

/-- The tags of a joined line on either side of the column where the selection was. -/
theorem Sound.tags_joined {selection : Selection} (sound : selection.Sound) {j : Tiling}
    (remains : selection.joined = .ok (some j)) :
    ∃ t u, selection.first.line.state = some t ∧ selection.last.line.state = some u ∧
      j.tags.take selection.first.position.column.toNat =
        t.tags.take selection.first.before.width ∧
      j.tags.drop selection.first.position.column.toNat =
        u.tags.drop selection.last.before.width := by
  rcases TiledText.tags_joined sound.lies remains with ⟨t, u, first, last, law⟩
  have inside := Caret.column_le_length sound.first first
  rw [UInt32.le_iff_toNat_le, ← Tiling.length_tags] at inside
  have count : (t.tags.take selection.first.position.column.toNat).length =
      selection.first.position.column.toNat := by
    rw [List.length_take, Nat.min_eq_left inside]
  refine ⟨t, u, first, last, ?_, ?_⟩
  · rw [law, ← Caret.toNat_column sound.first first]
    exact List.take_left' count
  · rw [law, ← Caret.toNat_column sound.last last]
    exact List.drop_left' count

theorem Sound.take_tags_replay {selection : Selection} (sound : selection.Sound) {carry : Bool}
    {inserted : Text} {states : List LineState} {v : Tiling}
    (replayed : selection.replay carry inserted = .ok states)
    (known : states.head? = some (some v)) :
    ∃ t, selection.first.line.state = some t ∧
      v.tags.take selection.first.before.width = t.tags.take selection.first.before.width := by
  rcases bind_eq_ok_iff.mp replayed with ⟨state, remains, done⟩
  rcases take_tags_distribute done known with ⟨j, rfl, kept⟩
  rcases sound.tags_joined remains with ⟨t, _, first, _, before, _⟩
  refine ⟨t, first, ?_⟩
  rw [← Caret.toNat_column sound.first first, kept, before, Caret.toNat_column sound.first first]

theorem Sound.drop_tags_replay {selection : Selection} (sound : selection.Sound) {carry : Bool}
    {inserted : Text} {states : List LineState} {v : Tiling}
    (replayed : selection.replay carry inserted = .ok states)
    (known : states.getLast? = some (some v)) :
    ∃ u, selection.last.line.state = some u ∧
      u.tags.drop selection.last.before.width <:+ v.tags := by
  rcases bind_eq_ok_iff.mp replayed with ⟨state, remains, done⟩
  rcases drop_tags_distribute done known with ⟨j, rfl, kept⟩
  rcases sound.tags_joined remains with ⟨_, u, _, last, _, after⟩
  rw [after] at kept
  exact ⟨u, last, kept⟩

end Selection

end TiledText
