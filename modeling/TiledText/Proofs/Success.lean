import TiledText.Proofs.Replay

/-!
# When a replay succeeds

Where the lines are sound and there is room for the result, a replay can fail in
one way only: the second line has a hairline that would come to stand inside the
joined line. Such a pair of lines clashes.
-/

namespace TiledText

/-!
## Steps of a replay

Each step succeeds where there is room for what it widens.
-/

theorem LineState.through_eq_ok {change : Tiling → Except TilingError Tiling} {state : LineState}
    (works : ∀ t, state = some t → ∃ u, change t = .ok u) :
    ∃ after, state.through change = .ok after := by
  cases state with
  | none =>
      exact ⟨none, rfl⟩
  | some t =>
      rcases works t rfl with ⟨u, done⟩
      exact ⟨some u, by rw [through, done]; rfl⟩

theorem toNat_insertedWidth {text : Text} (fits : text.width < UInt32.size) :
    (insertedWidth text).toNat = text.width :=
  toNat_ofNatClamp fits

theorem LineState.insert_eq_ok {state : LineState} {column : UInt32} {text : Text}
    (inside : ∀ t, state = some t → column ≤ t.length)
    (room : ∀ t, state = some t → t.length.toNat + text.width < UInt32.size) :
    ∃ wider, state.insert column (insertedWidth text) = .ok wider := by
  apply through_eq_ok
  intro t known
  have fits := room t known
  apply t.insert_eq_ok (inside t known)
  rw [Tiling.Fits, toNat_insertedWidth (Nat.lt_of_le_of_lt (Nat.le_add_left _ _) fits)]
  exact fits

namespace Tiling

theorem deleteEnding_eq_ok (t : Tiling) {column : UInt32} (inside : column ≤ t.length) :
    ∃ u, t.deleteEnding column = .ok u :=
  t.delete_eq_ok inside (UInt32.le_refl _)

theorem deleteBeginning_eq_ok (t : Tiling) {column : UInt32} (inside : column ≤ t.length) :
    ∃ u, t.deleteBeginning column = .ok u :=
  t.delete_eq_ok (UInt32.le_iff_toNat_le.mpr (Nat.zero_le _)) inside

theorem length_deleteEnding {t u : Tiling} {column : UInt32} (inside : column ≤ t.length)
    (deleted : t.deleteEnding column = .ok u) : u.length = column := by
  apply UInt32.toNat_inj.mp
  rw [UInt32.le_iff_toNat_le, ← length_tags] at inside
  rw [← length_tags, tags_deleteEnding deleted, List.length_take, Nat.min_eq_left inside]

theorem length_deleteBeginning {t u : Tiling} {column : UInt32}
    (deleted : t.deleteBeginning column = .ok u) :
    u.length.toNat = t.length.toNat - column.toNat := by
  rw [← length_tags, tags_deleteBeginning deleted, List.length_drop, length_tags]

end Tiling

/-!
## Distributing
-/

theorem carried_eq_ok (carry : Bool) {column : UInt32} {state : LineState}
    (inside : ∀ j, state = some j → column ≤ j.length) :
    ∃ moved, carried carry column state = .ok moved := by
  cases carry with
  | false =>
      exact ⟨none, rfl⟩
  | true =>
      exact LineState.through_eq_ok fun j known => j.deleteBeginning_eq_ok (inside j known)

theorem kept_insert_eq_ok {column : UInt32} {state kept : LineState} {text : Text}
    (inside : ∀ j, state = some j → column ≤ j.length)
    (cut : state.deleteEnding column = .ok kept)
    (room : ∀ j, state = some j → j.length.toNat + text.width < UInt32.size) :
    ∃ head, kept.insert column (insertedWidth text) = .ok head := by
  apply LineState.insert_eq_ok
  · intro k known
    rw [known] at cut
    rcases LineState.through_eq_some_iff.mp cut with ⟨j, before, deleted⟩
    rw [Tiling.length_deleteEnding (inside j before) deleted]
    exact UInt32.le_refl _
  · intro k known
    rw [known] at cut
    rcases LineState.through_eq_some_iff.mp cut with ⟨j, before, deleted⟩
    rw [Tiling.length_deleteEnding (inside j before) deleted]
    have shorter := UInt32.le_iff_toNat_le.mp (inside j before)
    exact Nat.lt_of_le_of_lt (Nat.add_le_add_right shorter _) (room j before)

theorem moved_insert_eq_ok {carry : Bool} {column : UInt32} {state moved : LineState}
    {text : Text} (taken : carried carry column state = .ok moved)
    (room : ∀ j, state = some j → j.length.toNat + text.width < UInt32.size) :
    ∃ tail, moved.insert 0 (insertedWidth text) = .ok tail := by
  apply LineState.insert_eq_ok
  · intro m _
    exact UInt32.le_iff_toNat_le.mpr (Nat.zero_le _)
  · intro m known
    rw [known] at taken
    rcases carried_eq_some_iff.mp taken with ⟨_, j, before, deleted⟩
    rw [Tiling.length_deleteBeginning deleted]
    exact Nat.lt_of_le_of_lt (Nat.add_le_add_right (Nat.sub_le _ _) _) (room j before)

theorem distribute_eq_ok {carry : Bool} {column : UInt32} {state : LineState}
    {pieces : List Text} (inside : ∀ j, state = some j → column ≤ j.length)
    (room : ∀ j, state = some j → ∀ piece ∈ pieces,
      j.length.toNat + Text.width piece < UInt32.size) :
    ∃ states, distribute carry column state pieces = .ok states := by
  cases pieces with
  | nil =>
      exact ⟨[], rfl⟩
  | cons first rest =>
      cases rest with
      | nil =>
          rcases LineState.insert_eq_ok inside
            fun j known => room j known first (List.mem_cons_self ..) with ⟨wider, done⟩
          exact ⟨_, distribute_one.mpr ⟨wider, done, rfl⟩⟩
      | cons second more =>
          rcases exists_middle first second more with ⟨middle, last, shape⟩
          rw [shape] at room ⊢
          rcases carried_eq_ok carry inside with ⟨moved, taken⟩
          rcases LineState.through_eq_ok fun j known => j.deleteEnding_eq_ok (inside j known)
            with ⟨kept, cut⟩
          rcases kept_insert_eq_ok inside cut
            fun j known => room j known first (List.mem_cons_self ..) with ⟨head, front⟩
          rcases moved_insert_eq_ok taken
            fun j known => room j known last (by simp) with ⟨tail, back⟩
          exact ⟨_, distribute_many.mpr ⟨moved, kept, head, tail, taken, cut, front, back, rfl⟩⟩

/-!
## Joining

What is left of the first line has a token unless all of it goes, and what is
left of the second line has the hairline that it had unless all of it goes.
-/

namespace Selection

/-- What stands around the selection leaves room for the inserted text. -/
def Roomy (selection : Selection) (inserted : Text) : Prop :=
  selection.first.before.width + selection.last.after.width + inserted.width < UInt32.size

theorem Roomy.toNat_insertedWidth {selection : Selection} {inserted piece : Text}
    (room : selection.Roomy inserted) (member : piece ∈ inserted.lines) :
    (insertedWidth piece).toNat = piece.width := by
  have part := Text.width_le_of_mem_lines member
  rw [Roomy] at room
  exact TiledText.toNat_insertedWidth (by omega)

/-- The lines around the selection are known, and a hairline would be in the way between them. -/
def Clashes (selection : Selection) : Prop :=
  selection.withinLine = false ∧
    ∃ t ∈ selection.first.line.state, ∃ u ∈ selection.last.line.state,
      (t.isEmpty = false ∧ (0 < selection.first.position.column ∨ t.length = 0)) ∧
        u.hairline = true ∧
          (selection.last.position.column = 0 ∨ selection.last.position.column < u.length)

instance (selection : Selection) : Decidable selection.Clashes :=
  inferInstanceAs (Decidable (_ ∧ _))

theorem joined_of_cuts {selection : Selection} (within : selection.withinLine = false)
    {head tail : LineState}
    (cut : selection.first.line.state.deleteEnding selection.first.position.column = .ok head)
    (cut' : selection.last.line.state.deleteBeginning selection.last.position.column = .ok tail) :
    selection.joined = head.append tail := by
  unfold joined
  rw [if_neg (by simp [within]), cut, cut']
  rfl

theorem not_clashes_of_unknown {selection : Selection}
    (unknown : selection.first.line.state = none ∨ selection.last.line.state = none) :
    ¬ selection.Clashes := by
  intro clash
  rcases clash with ⟨_, t, first, u, last, _⟩
  cases unknown with
  | inl missing =>
      rw [missing] at first
      cases first
  | inr missing =>
      rw [missing] at last
      cases last

theorem Sound.joined_of_unknown {selection : Selection} (sound : selection.Sound)
    (within : selection.withinLine = false)
    (unknown : selection.first.line.state = none ∨ selection.last.line.state = none) :
    selection.joined = .ok none := by
  rcases LineState.through_eq_ok fun t known =>
    t.deleteEnding_eq_ok (Caret.column_le_length sound.first known) with ⟨head, cut⟩
  rcases LineState.through_eq_ok fun u known =>
    u.deleteBeginning_eq_ok (Caret.column_le_length sound.last known) with ⟨tail, cut'⟩
  have joined := joined_of_cuts within cut cut'
  cases unknown with
  | inl missing =>
      rw [missing] at cut
      rw [joined, ← Except.ok.inj cut]
      rfl
  | inr missing =>
      rw [missing] at cut'
      rw [joined, ← Except.ok.inj cut', LineState.append_none]

theorem Sound.joined_of_known {selection : Selection} (sound : selection.Sound)
    {inserted : Text} (room : selection.Roomy inserted) (within : selection.withinLine = false)
    {t u : Tiling} (first : selection.first.line.state = some t)
    (last : selection.last.line.state = some u) :
    (¬ selection.Clashes ∧ ∃ state, selection.joined = .ok state) ∨
      (selection.Clashes ∧ ∃ index, selection.joined = .error (.unordered index)) := by
  have start := Caret.column_le_length sound.first first
  rcases t.deleteEnding_eq_ok start with ⟨h, ending⟩
  rcases u.deleteBeginning_eq_ok (Caret.column_le_length sound.last last) with ⟨b, beginning⟩
  have joined : selection.joined = (h.append b).map some :=
    joined_of_cuts within (LineState.through_eq_some_iff.mpr ⟨t, first, ending⟩)
      (LineState.through_eq_some_iff.mpr ⟨u, last, beginning⟩)
  have clash : selection.Clashes ↔ h.isEmpty = false ∧ b.hairline = true := by
    rw [Tiling.isEmpty_deleteEnding ending, Tiling.hairline_deleteBeginning beginning]
    simp [Clashes, within, first, last]
  have fits : Tiling.Fits h.length b.length := by
    have parts := selection.last.width_before_add_width_after
    rw [Roomy] at room
    rw [Tiling.Fits, Tiling.length_deleteEnding start ending,
      Tiling.length_deleteBeginning beginning, Caret.toNat_column sound.first first,
      Caret.toNat_column sound.last last, sound.last.covered u last, ← parts,
      Nat.add_sub_cancel_left]
    exact Nat.lt_of_le_of_lt (Nat.le_add_right _ _) room
  by_cases between : h.isEmpty = false ∧ b.hairline = true
  · right
    refine ⟨clash.mpr between, h.size, ?_⟩
    rw [joined, Tiling.append_of_hairline fits between.1 between.2]
    rfl
  · left
    refine ⟨fun found => between (clash.mp found), ?_⟩
    rw [Decidable.not_and_iff_not_or_not, Bool.not_eq_false, Bool.not_eq_true] at between
    rcases Tiling.append_eq_ok fits between with ⟨v, appended⟩
    exact ⟨some v, by rw [joined, appended]; rfl⟩

theorem Sound.joined_eq {selection : Selection} (sound : selection.Sound) {inserted : Text}
    (room : selection.Roomy inserted) :
    (¬ selection.Clashes ∧ ∃ state, selection.joined = .ok state) ∨
      (selection.Clashes ∧ ∃ index, selection.joined = .error (.unordered index)) := by
  cases sound.lies with
  | inside within _ line _ ordered =>
      left
      constructor
      · intro clash
        have across := clash.1
        rw [within] at across
        cases across
      · unfold joined
        rw [if_pos within]
        apply LineState.through_eq_ok
        intro t known
        have known' : selection.last.line.state = some t := by rw [line, known]
        apply t.delete_eq_ok
        · rw [UInt32.le_iff_toNat_le, Caret.toNat_column sound.first known,
            Caret.toNat_column sound.last known', Caret.before, Caret.before, line]
          exact Text.width_take_le _ ordered
        · exact Caret.column_le_length sound.last known'
  | across _ within _ _ =>
      cases first : selection.first.line.state with
      | none =>
          left
          exact ⟨not_clashes_of_unknown (Or.inl first), none,
            sound.joined_of_unknown within (Or.inl first)⟩
      | some t =>
          cases last : selection.last.line.state with
          | none =>
              left
              exact ⟨not_clashes_of_unknown (Or.inr last), none,
                sound.joined_of_unknown within (Or.inr last)⟩
          | some u =>
              exact sound.joined_of_known room within first last

theorem Sound.toNat_column {selection : Selection} (sound : selection.Sound) {j : Tiling}
    (remains : selection.joined = .ok (some j)) :
    selection.first.position.column.toNat = selection.first.before.width := by
  rcases sound.tags_joined remains with ⟨t, _, first, _⟩
  exact Caret.toNat_column sound.first first

theorem Sound.length_joined {selection : Selection} (sound : selection.Sound) {j : Tiling}
    (remains : selection.joined = .ok (some j)) :
    j.length.toNat = selection.first.before.width + selection.last.after.width := by
  rcases sound.tags_joined remains with ⟨t, u, first, last, before, after⟩
  have start := selection.first.width_before_add_width_after
  have stop := selection.last.width_before_add_width_after
  have front := congrArg List.length before
  have back := congrArg List.length after
  rw [List.length_take, List.length_take, sound.first.length_tags first, Tiling.length_tags,
    sound.toNat_column remains] at front
  rw [List.length_drop, List.length_drop, sound.last.length_tags last, Tiling.length_tags,
    sound.toNat_column remains] at back
  omega

theorem Sound.column_le_length {selection : Selection} (sound : selection.Sound) {j : Tiling}
    (remains : selection.joined = .ok (some j)) :
    selection.first.position.column ≤ j.length := by
  rw [UInt32.le_iff_toNat_le, sound.toNat_column remains, sound.length_joined remains]
  exact Nat.le_add_right _ _

theorem Sound.replay_eq_ok {selection : Selection} (sound : selection.Sound) {inserted : Text}
    (room : selection.Roomy inserted) {state : LineState} (remains : selection.joined = .ok state)
    (carry : Bool) : ∃ states, selection.replay carry inserted = .ok states := by
  rw [replay_of_joined remains]
  apply distribute_eq_ok
  · intro j known
    rw [known] at remains
    exact sound.column_le_length remains
  · intro j known piece member
    rw [known] at remains
    have part := Text.width_le_of_mem_lines member
    rw [sound.length_joined remains]
    exact Nat.lt_of_le_of_lt (Nat.add_le_add_left part _) room

theorem Sound.replay_eq {selection : Selection} (sound : selection.Sound) {inserted : Text}
    (room : selection.Roomy inserted) (carry : Bool) :
    (¬ selection.Clashes ∧ ∃ states, selection.replay carry inserted = .ok states) ∨
      (selection.Clashes ∧
        ∃ index, selection.replay carry inserted = .error (.unordered index)) := by
  rcases sound.joined_eq room with ⟨calm, state, remains⟩ | ⟨clash, index, failed⟩
  · left
    exact ⟨calm, sound.replay_eq_ok room remains carry⟩
  · right
    exact ⟨clash, index, replay_of_error failed carry inserted⟩

end Selection

end TiledText
