import TiledText.Proofs.Buffer.Insertion
import TiledText.Proofs.Document.Opacity
import TiledText.Storage.Edit

/-!
# Replaying an edit on buffers

What is attempted with buffers of tilings has the result that the tilings give, as a
buffer. This is so of each operation, and so it is of the replay, which is a sequence of
them. There are at least two lines of text when two are taken off.
-/

namespace TiledText

def LineState.buffer (state : LineState) : Option Buffer :=
  state.map Tiling.buffer

namespace Storage

open Checked

/-!
## Operations in sequence
-/

/-- What is kept in another form can be worked on in that form. -/
theorem given_map_bind {x : Except TilingError α} {f : α → α'}
    {next : α → Except TilingError β} {next' : α' → Attempt β'} {h : β → β'}
    (agree : ∀ a, next' (f a) = given ((next a).map h)) :
    (given (x.map f) >>= next') = given ((x >>= next).map h) := by
  cases x with
  | error cause =>
      rfl
  | ok a =>
      exact agree a

theorem through_buffer {change : Buffer → Checked (Except TilingError Buffer)}
    {change' : Tiling → Except TilingError Tiling}
    (agree : ∀ t : Tiling, change t.buffer = .ok ((change' t).map Tiling.buffer))
    (state : LineState) :
    through change state.buffer = given ((state.through change').map LineState.buffer) := by
  cases state with
  | none =>
      rfl
  | some t =>
      show (ExceptT.mk (change t.buffer) >>= _) =
        given (((change' t).map some).map LineState.buffer)
      rw [agree]
      cases change' t with
      | error cause =>
          rfl
      | ok u =>
          rfl

variable (state : LineState)

theorem delete_buffer (start stop : UInt32) :
    delete state.buffer start stop = given ((state.delete start stop).map LineState.buffer) :=
  through_buffer (fun t => Buffer.delete_eq_ok t start stop) state

theorem deleteBeginning_buffer (stop : UInt32) :
    deleteBeginning state.buffer stop =
      given ((state.deleteBeginning stop).map LineState.buffer) :=
  through_buffer (fun t => Buffer.deleteBeginning_eq_ok t stop) state

theorem deleteEnding_buffer (start : UInt32) :
    deleteEnding state.buffer start = given ((state.deleteEnding start).map LineState.buffer) :=
  through_buffer (fun t => Buffer.deleteEnding_eq_ok t start) state

theorem insert_buffer (offset width : UInt32) :
    insert state.buffer offset width =
      given ((state.insert offset width).map LineState.buffer) :=
  through_buffer (fun t => Buffer.insert_eq_ok t offset width) state

theorem append_buffer (first second : LineState) :
    append first.buffer second.buffer =
      given ((first.append second).map LineState.buffer) := by
  cases first with
  | none =>
      rfl
  | some t =>
      cases second with
      | none =>
          rfl
      | some u =>
          show (ExceptT.mk (t.buffer.append u.buffer) >>= _) = _
          rw [Buffer.append_eq_ok]
          show _ = given (((t.append u).map some).map LineState.buffer)
          cases t.append u with
          | error cause =>
              rfl
          | ok v =>
              rfl

/-!
## The replay
-/

/-- The state of the line of the second caret, if that is another line. -/
def lastState? (selection : Selection) : Option LineState :=
  if selection.withinLine then none else some selection.last.line.state

theorem joined_buffer (selection : Selection) :
    joined selection.first.line.state.buffer ((lastState? selection).map LineState.buffer)
        selection.first.position.column selection.last.position.column =
      given (selection.joined.map LineState.buffer) := by
  unfold lastState? Selection.joined
  cases selection.withinLine with
  | true =>
      exact delete_buffer _ _ _
  | false =>
      show (deleteEnding selection.first.line.state.buffer _ >>= _) = _
      rw [deleteEnding_buffer]
      refine given_map_bind fun head => ?_
      rw [deleteBeginning_buffer]
      refine given_map_bind fun tail => ?_
      exact append_buffer head tail

theorem carried_buffer (carry : Bool) (column : UInt32) :
    carried carry column state.buffer =
      given ((TiledText.carried carry column state).map LineState.buffer) := by
  cases carry with
  | false =>
      rfl
  | true =>
      exact deleteBeginning_buffer state column

theorem distribute_buffer (carry : Bool) (column : UInt32) {inserted : List Text}
    (nonempty : inserted ≠ []) :
    distribute carry column state.buffer inserted =
      given ((TiledText.distribute carry column state inserted).map
        (List.map LineState.buffer)) := by
  cases inserted with
  | nil =>
      exact absurd rfl nonempty
  | cons first rest =>
      cases rest with
      | nil =>
          show (insert state.buffer column (insertedWidth first) >>= _) = _
          rw [insert_buffer]
          exact given_map_bind fun only => rfl
      | cons second more =>
          rcases exists_middle first second more with ⟨middle, last, shape⟩
          have many : ¬ (first :: (middle ++ [last])).length ≤ 1 := by simp
          have final : (first :: (middle ++ [last])).getLast? = some last := by
            rw [← List.cons_append, List.getLast?_concat]
          have between : subIndex (first :: (middle ++ [last])).length 2 = .ok middle.length := by
            rw [List.length_cons, List.length_append, List.length_singleton]
            exact subIndex_eq_ok (Nat.le_add_left 2 _)
          rw [shape, distribute_concat, distribute, if_neg many, final, between, carried_buffer]
          refine given_map_bind fun moved => ?_
          rw [deleteEnding_buffer]
          refine given_map_bind fun kept => ?_
          rw [insert_buffer]
          refine given_map_bind fun head => ?_
          show (insert moved.buffer 0 (insertedWidth last) >>= _) = _
          rw [insert_buffer]
          refine given_map_bind fun tail => ?_
          show given (.ok (head.buffer :: (List.replicate middle.length none ++ [tail.buffer]))) =
            given (.ok ((head :: (List.replicate middle.length none ++ [tail])).map
              LineState.buffer))
          rw [List.map_cons, List.map_append, List.map_replicate]
          rfl

theorem replay_buffer (selection : Selection) (carry : Bool) (inserted : Text) :
    replay selection.first.line.state.buffer ((lastState? selection).map LineState.buffer)
        selection.first.position.column selection.last.position.column carry inserted.lines =
      given ((selection.replay carry inserted).map (List.map LineState.buffer)) := by
  rw [replay, joined_buffer]
  refine given_map_bind fun state => ?_
  exact distribute_buffer state carry _ inserted.lines_ne_nil

end Storage

end TiledText
