import TiledText.Proofs.Buffer.Dividing

/-!
# Deletions in pieces

A deletion moves the offsets of a line. Those before the cut stay, those in it fall together
at its start, and those after it move back. When a piece of a stretch is taken out and then
what is left of the stretch, every offset comes to lie where it does when the stretch is
taken out at once.

The tokens follow. A span that had code units is gone when its two ends have fallen
together, and it does not matter which of the deletions brought them together. So what is
left of a line does not depend on the pieces in which a stretch is deleted.
-/

namespace TiledText

/-!
## Where offsets go

A deletion moves no offset on and lets none overtake another, but it may bring offsets
together.
-/

/-- Where an offset lies when the units `start`, …, `stop - 1` are taken out. -/
def offsetWithout (start stop offset : UInt32) : UInt32 :=
  if offset ≤ start then
    offset
  else if offset ≤ stop then
    start
  else
    offset - (stop - start)

variable {start stop first last offset : UInt32}

theorem toNat_offsetWithout (le : start ≤ stop) (offset : UInt32) :
    (offsetWithout start stop offset).toNat =
      min offset.toNat start.toNat + (offset.toNat - stop.toNat) := by
  have order := UInt32.le_iff_toNat_le.mp le
  unfold offsetWithout
  split
  case isTrue before =>
    rw [UInt32.le_iff_toNat_le] at before
    omega
  case isFalse later =>
    rw [UInt32.le_iff_toNat_le] at later
    split
    case isTrue inside =>
      rw [UInt32.le_iff_toNat_le] at inside
      omega
    case isFalse past =>
      have width := UInt32.toNat_sub_of_le _ _ le
      have narrow : stop - start ≤ offset := by
        rw [UInt32.le_iff_toNat_le, width]
        rw [UInt32.le_iff_toNat_le] at past
        omega
      rw [UInt32.le_iff_toNat_le] at past
      rw [UInt32.toNat_sub_of_le _ _ narrow, width]
      omega

theorem offsetWithout_zero (start stop : UInt32) : offsetWithout start stop 0 = 0 :=
  if_pos UInt32.zero_le

theorem offsetWithout_self (offset place : UInt32) : offsetWithout place place offset = offset := by
  apply UInt32.toNat_inj.mp
  rw [toNat_offsetWithout (UInt32.le_refl _)]
  omega

theorem offsetWithout_le_self (le : start ≤ stop) (offset : UInt32) :
    offsetWithout start stop offset ≤ offset := by
  have order := UInt32.le_iff_toNat_le.mp le
  rw [UInt32.le_iff_toNat_le, toNat_offsetWithout le]
  omega

theorem offsetWithout_le (le : start ≤ stop) {a b : UInt32} (order : a ≤ b) :
    offsetWithout start stop a ≤ offsetWithout start stop b := by
  rw [UInt32.le_iff_toNat_le] at order
  rw [UInt32.le_iff_toNat_le, toNat_offsetWithout le, toNat_offsetWithout le]
  omega

/-!
## Pieces of a stretch

Taking out a piece and then the rest moves the offsets as taking out the whole stretch does.
-/

structure PieceOf (start stop first last : UInt32) : Prop where
  after : start ≤ first
  order : first ≤ last
  before : last ≤ stop

namespace PieceOf

variable (piece : PieceOf start stop first last)

include piece

theorem le : start ≤ stop :=
  UInt32.le_trans piece.after (UInt32.le_trans piece.order piece.before)

theorem toNat_rest :
    (stop - (last - first)).toNat = stop.toNat - (last.toNat - first.toNat) := by
  have width := UInt32.toNat_sub_of_le _ _ piece.order
  have before := UInt32.le_iff_toNat_le.mp piece.before
  have narrow : last - first ≤ stop := by
    rw [UInt32.le_iff_toNat_le, width]
    omega
  rw [UInt32.toNat_sub_of_le _ _ narrow, width]

theorem le_rest : start ≤ stop - (last - first) := by
  have after := UInt32.le_iff_toNat_le.mp piece.after
  have order := UInt32.le_iff_toNat_le.mp piece.order
  have before := UInt32.le_iff_toNat_le.mp piece.before
  rw [UInt32.le_iff_toNat_le, piece.toNat_rest]
  omega

theorem offsetWithout_stop : offsetWithout first last stop = stop - (last - first) := by
  have order := UInt32.le_iff_toNat_le.mp piece.order
  have before := UInt32.le_iff_toNat_le.mp piece.before
  apply UInt32.toNat_inj.mp
  rw [toNat_offsetWithout piece.order, piece.toNat_rest]
  omega

theorem offsetWithout_rest (offset : UInt32) :
    offsetWithout start (stop - (last - first)) (offsetWithout first last offset) =
      offsetWithout start stop offset := by
  have after := UInt32.le_iff_toNat_le.mp piece.after
  have order := UInt32.le_iff_toNat_le.mp piece.order
  have before := UInt32.le_iff_toNat_le.mp piece.before
  apply UInt32.toNat_inj.mp
  rw [toNat_offsetWithout piece.le_rest, toNat_offsetWithout piece.order,
    toNat_offsetWithout piece.le, piece.toNat_rest]
  omega

end PieceOf

theorem PieceOf.rest_of_last (piece : PieceOf start stop first stop) :
    stop - (stop - first) = first := by
  have order := UInt32.le_iff_toNat_le.mp piece.order
  apply UInt32.toNat_inj.mp
  rw [piece.toNat_rest]
  omega

theorem PieceOf.rest_of_first (piece : PieceOf start stop start last) :
    stop - (last - start) = start + (stop - last) := by
  have order := UInt32.le_iff_toNat_le.mp piece.order
  have before := UInt32.le_iff_toNat_le.mp piece.before
  have width := UInt32.toNat_sub_of_le _ _ piece.before
  have bound := stop.toNat_lt_size
  have fits : start.toNat + (stop - last).toNat < UInt32.size := by
    omega
  apply UInt32.toNat_inj.mp
  rw [piece.toNat_rest, UInt32.toNat_add, Nat.mod_eq_of_lt fits, width]
  omega

/-!
## Where spans go
-/

namespace Span

def without (start stop : UInt32) (span : Span) : Span :=
  ⟨offsetWithout start stop span.start, offsetWithout start stop span.stop, span.tag⟩

theorem gone_iff (le : start ≤ stop) {span : Span} :
    span.gone start stop = true ↔
      span.start < span.stop ∧
        offsetWithout start stop span.start = offsetWithout start stop span.stop := by
  have order := UInt32.le_iff_toNat_le.mp le
  rw [← UInt32.toNat_inj, toNat_offsetWithout le, toNat_offsetWithout le]
  simp only [gone, Bool.and_eq_true, decide_eq_true_eq, UInt32.le_iff_toNat_le,
    UInt32.lt_iff_toNat_lt]
  omega

/-- Of two deletions one takes a span just when together they bring its ends together. -/
theorem gone_twice_iff (order : first ≤ last) (le : start ≤ stop) {span : Span} :
    ((span.without first last).gone start stop || span.gone first last) = true ↔
      span.start < span.stop ∧
        offsetWithout start stop (offsetWithout first last span.start) =
          offsetWithout start stop (offsetWithout first last span.stop) := by
  rw [Bool.or_eq_true, gone_iff le, gone_iff order]
  constructor
  · rintro (⟨wide, together⟩ | ⟨wide, early⟩)
    · refine ⟨?_, together⟩
      apply UInt32.not_le.mp
      intro back
      exact UInt32.not_lt.mpr (offsetWithout_le order back) wide
    · exact ⟨wide, congrArg (offsetWithout start stop) early⟩
  · rintro ⟨wide, together⟩
    by_cases early : offsetWithout first last span.start = offsetWithout first last span.stop
    · exact Or.inr ⟨wide, early⟩
    · have forward := offsetWithout_le order (UInt32.le_of_lt wide)
      exact Or.inl ⟨UInt32.lt_of_le_of_ne forward early, together⟩

end Span

namespace Tiling

variable {t u : Tiling}

/-!
## What a deletion leaves

A deletion is told from where it moves the offsets. Spans of which the ends come together are
gone.
-/

theorem spansFrom_spare (le : start ≤ stop) (begins : UInt32) (tokens : List Token) :
    spansFrom (offsetWithout start stop begins) (spare start stop (spansFrom begins tokens)) =
      ((spansFrom begins tokens).filter fun span => !span.gone start stop).map
        (Span.without start stop) := by
  induction tokens generalizing begins with
  | nil =>
      rfl
  | cons token rest ih =>
      rw [spansFrom]
      cases gone : (⟨begins, token.stop, token.tag⟩ : Span).gone start stop with
      | true =>
          have together := ((Span.gone_iff le).mp gone).2
          rw [spare_cons_of_gone gone, List.filter_cons_of_neg (by simp [gone]), together, ih]
      | false =>
          rw [spare_cons_of_spared gone, List.filter_cons_of_pos (by simp [gone]), List.map_cons,
            ← ih]
          rfl

/--
The tokens of spans of which the ends move. A span that had code units is gone when its ends
have come together.
-/
def remains (move : UInt32 → UInt32) (spans : List Span) : List Token :=
  (spans.filter fun span => !(span.start < span.stop && move span.start == move span.stop)).map
    fun span => ⟨move span.stop, span.tag⟩

theorem spare_eq_remains (le : start ≤ stop) (spans : List Span) :
    spare start stop spans = remains (offsetWithout start stop) spans := by
  have kept : ∀ span : Span, (!span.gone start stop) =
      !(span.start < span.stop &&
        offsetWithout start stop span.start == offsetWithout start stop span.stop) := by
    intro span
    congr 1
    rw [Bool.eq_iff_iff, Span.gone_iff le, Bool.and_eq_true, decide_eq_true_eq, beq_iff_eq]
  exact congrArg (List.map _) (List.filter_congr fun span _ => kept span)

/-- What two deletions spare is what remains when the offsets move twice. -/
theorem spare_spare (order : first ≤ last) (le : start ≤ stop) (begins : UInt32)
    (tokens : List Token) :
    spare start stop
        (spansFrom (offsetWithout first last begins) (spare first last (spansFrom begins tokens))) =
      remains (fun offset => offsetWithout start stop (offsetWithout first last offset))
        (spansFrom begins tokens) := by
  have kept : ∀ span : Span,
      (!(span.without first last).gone start stop && !span.gone first last) =
        !(span.start < span.stop &&
          offsetWithout start stop (offsetWithout first last span.start) ==
            offsetWithout start stop (offsetWithout first last span.stop)) := by
    intro span
    rw [← Bool.not_or]
    congr 1
    rw [Bool.eq_iff_iff, Span.gone_twice_iff order le, Bool.and_eq_true, decide_eq_true_eq,
      beq_iff_eq]
  rw [spansFrom_spare order, spare, List.filter_map, List.filter_filter, List.map_map]
  exact congrArg (List.map _) (List.filter_congr fun span _ => kept span)

theorem spare_nothing (place begins : UInt32) (tokens : List Token) :
    spare place place (spansFrom begins tokens) = tokens := by
  induction tokens generalizing begins with
  | nil =>
      rfl
  | cons token rest ih =>
      have spared : (⟨begins, token.stop, token.tag⟩ : Span).gone place place = false := by
        rw [Bool.eq_false_iff]
        intro gone
        have ends := (Span.gone_iff (UInt32.le_refl _)).mp gone
        rw [offsetWithout_self, offsetWithout_self] at ends
        exact UInt32.ne_of_lt ends.1 ends.2
      have still : (⟨begins, token.stop, token.tag⟩ : Span).stopWithout place place =
          token.stop := offsetWithout_self _ _
      rw [spansFrom, spare_cons_of_spared spared, ih, still]

theorem length_delete (le : start ≤ stop) (deleted : t.delete start stop = .ok u) :
    u.length = offsetWithout start stop t.length := by
  apply UInt32.toNat_inj.mp
  rw [toNat_offsetWithout le, ← length_tags, tags_delete deleted, List.length_append,
    List.length_take, List.length_drop, length_tags, Nat.min_comm]

/-- The line had code units, and none of them is left. -/
def Emptied (t : Tiling) (start stop : UInt32) : Prop :=
  t.length ≠ 0 ∧ offsetWithout start stop t.length = 0

theorem emptied_iff (le : start ≤ stop) (bound : stop ≤ t.length) :
    t.Emptied start stop ↔ start ≠ stop ∧ start = 0 ∧ stop = t.length := by
  have order := UInt32.le_iff_toNat_le.mp le
  have inside := UInt32.le_iff_toNat_le.mp bound
  rw [Emptied, ne_eq, ne_eq, ← UInt32.toNat_inj, ← UInt32.toNat_inj, ← UInt32.toNat_inj,
    ← UInt32.toNat_inj, ← UInt32.toNat_inj, toNat_offsetWithout le, UInt32.toNat_zero]
  omega

theorem toList_delete_of_emptied (le : start ≤ stop) (bound : stop ≤ t.length)
    (deleted : t.delete start stop = .ok u) (emptied : t.Emptied start stop) : u.toList = [] := by
  have whole := (emptied_iff le bound).mp emptied
  rcases delete_cases deleted with ⟨bare, same⟩ | ⟨nonempty, _⟩
  · rw [same, isEmpty_iff.mp bare]
    rfl
  · have wide : 0 < t.length := UInt32.pos_iff_ne_zero.mpr emptied.1
    rw [(delete_outcomes nonempty deleted).2.1 whole.2.1 whole.2.2 wide]
    rfl

theorem toList_delete (le : start ≤ stop) (bound : stop ≤ t.length)
    (deleted : t.delete start stop = .ok u) (remains : ¬ t.Emptied start stop) :
    u.toList = spare start stop t.spans := by
  rw [emptied_iff le bound] at remains
  rcases delete_cases deleted with ⟨bare, same⟩ | ⟨_, _, _, outcome⟩
  · rw [same, isEmpty_iff.mp bare]
    rfl
  · rcases outcome with ⟨equal, same⟩ | ⟨differ, whole⟩ | ⟨differ, _, cut⟩
    · rw [equal, same, spans, spare_nothing]
    · exact absurd ⟨differ, whole.1, whole.2.1⟩ remains
    · rw [toList, cut]
      exact toList_cutTokens_eq_spare (UInt32.lt_of_le_of_ne le differ) bound

/--
The tokens of a line of which the offsets move. If it had code units and has none any more,
none of them is left, not even a hairline.
-/
def leftBy (t : Tiling) (move : UInt32 → UInt32) : List Token :=
  if t.length ≠ 0 ∧ move t.length = 0 then [] else remains move t.spans

theorem toList_delete_eq_leftBy (le : start ≤ stop) (bound : stop ≤ t.length)
    (deleted : t.delete start stop = .ok u) : u.toList = t.leftBy (offsetWithout start stop) := by
  by_cases emptied : t.Emptied start stop
  · rw [toList_delete_of_emptied le bound deleted emptied]
    exact (if_pos emptied).symm
  · rw [toList_delete le bound deleted emptied, spare_eq_remains le]
    exact (if_neg emptied).symm

/-!
## Two deletions
-/

/-- A line that is not emptied at once is emptied later just when both have no units left. -/
theorem emptied_again (order : first ≤ last) (deleted : t.delete first last = .ok u)
    (remains : ¬ t.Emptied first last) :
    u.Emptied start stop ↔
      t.length ≠ 0 ∧ offsetWithout start stop (offsetWithout first last t.length) = 0 := by
  have units : u.length ≠ 0 ↔ t.length ≠ 0 := by
    rw [length_delete order deleted]
    constructor
    · intro left zero
      rw [zero, offsetWithout_zero] at left
      exact left rfl
    · exact fun units rest => remains ⟨units, rest⟩
  rw [Emptied, units, length_delete order deleted]

theorem le_length_delete (piece : PieceOf start stop first last) (bound : stop ≤ t.length)
    (deleted : t.delete first last = .ok u) : stop - (last - first) ≤ u.length := by
  rw [length_delete piece.order deleted, ← piece.offsetWithout_stop]
  exact offsetWithout_le piece.order bound

theorem delete_empty (start stop : UInt32) : empty.delete start stop = .ok empty :=
  rfl

/-- Two deletions leave what is left when the offsets move twice. -/
theorem toList_delete_delete {v : Tiling} (order : first ≤ last) (inside : last ≤ t.length)
    (le : start ≤ stop) (bound : stop ≤ u.length) (deleted : t.delete first last = .ok u)
    (again : u.delete start stop = .ok v) :
    v.toList =
      t.leftBy fun offset => offsetWithout start stop (offsetWithout first last offset) := by
  -- A line that is emptied at first has no tokens, so its spans say nothing of the second.
  by_cases early : t.Emptied first last
  · have cleared := ext_toList (toList_delete_of_emptied order inside deleted early) (u := empty)
    rw [cleared, delete_empty] at again
    cases again
    have short : offsetWithout start stop (offsetWithout first last t.length) = 0 := by
      rw [early.2, offsetWithout_zero]
    exact (if_pos ⟨early.1, short⟩).symm
  · have emptied : u.Emptied start stop ↔ _ := emptied_again order deleted early
    by_cases late : u.Emptied start stop
    · rw [toList_delete_of_emptied le bound again late]
      exact (if_pos (emptied.mp late)).symm
    · have begins := spare_spare order le 0 t.toList
      rw [offsetWithout_zero] at begins
      rw [toList_delete le bound again late, spans, toList_delete order inside deleted early, spans,
        begins]
      exact (if_neg fun units => late (emptied.mpr units)).symm

theorem toList_delete_rest {v w : Tiling} (piece : PieceOf start stop first last)
    (bound : stop ≤ t.length) (deleted : t.delete first last = .ok u)
    (rest : u.delete start (stop - (last - first)) = .ok v)
    (whole : t.delete start stop = .ok w) : v.toList = w.toList := by
  have inner := UInt32.le_trans piece.before bound
  have further := le_length_delete piece bound deleted
  rw [toList_delete_delete piece.order inner piece.le_rest further deleted rest,
    toList_delete_eq_leftBy piece.le bound whole]
  exact congrArg t.leftBy (funext piece.offsetWithout_rest)

theorem delete_rest (piece : PieceOf start stop first last) (bound : stop ≤ t.length)
    (deleted : t.delete first last = .ok u) :
    u.delete start (stop - (last - first)) = t.delete start stop := by
  have further := le_length_delete piece bound deleted
  rcases u.delete_eq_ok piece.le_rest further with ⟨v, rest⟩
  rcases t.delete_eq_ok piece.le bound with ⟨w, whole⟩
  rw [rest, whole, ext_toList (toList_delete_rest piece bound deleted rest whole)]

/-!
## Any number of deletions

The deletion of a stretch, in a buffer as in a tiling, does not depend on the pieces in which
it is made. It can be made in two pieces, the later one first or the earlier one first. It can
be made in any number of pieces, each of them anywhere in what those before it have left, and
so it can be made by backspacing.
-/

def deleteEach (t : Tiling) : List (UInt32 × UInt32) → Except TilingError Tiling
  | [] => .ok t
  | (first, last) :: rest => do
      let u ← t.delete first last
      u.deleteEach rest

end Tiling

def Buffer.deleteEach (b : Buffer) : List (UInt32 × UInt32) → Checked (Except TilingError Buffer)
  | [] => .ok (.ok b)
  | (first, last) :: rest => do
      match ← b.delete first last with
      | .ok c => c.deleteEach rest
      | .error cause => return .error cause

/--
The pieces, taken out one after the other, are all of the stretch. Each is a piece of what
those before it have left.
-/
inductive Chops (start : UInt32) : UInt32 → List (UInt32 × UInt32) → Prop where
  | nothing : Chops start start []
  | piece {stop first last : UInt32} {rest : List (UInt32 × UInt32)} :
      PieceOf start stop first last → Chops start (stop - (last - first)) rest →
        Chops start stop ((first, last) :: rest)

/-- The pieces in which backspacing takes out some units, the last of them first. -/
def backspaces (stop : UInt32) : Nat → List (UInt32 × UInt32)
  | 0 => []
  | count + 1 => (stop - 1, stop) :: backspaces (stop - 1) count

theorem chops_backspaces (le : start ≤ stop) :
    Chops start stop (backspaces stop (stop.toNat - start.toNat)) := by
  have order := UInt32.le_iff_toNat_le.mp le
  -- The induction is on the number of units, and the stretch loses one of them at its end.
  generalize width : stop.toNat - start.toNat = count
  induction count generalizing stop with
  | zero =>
      have same : start = stop := by
        apply UInt32.toNat_inj.mp
        omega
      subst same
      exact Chops.nothing
  | succ count ih =>
      have one : (1 : UInt32) ≤ stop := by
        rw [UInt32.le_iff_toNat_le, UInt32.toNat_one]
        omega
      have back : (stop - 1).toNat = stop.toNat - 1 := UInt32.toNat_sub_of_le _ _ one
      have piece : PieceOf start stop (stop - 1) stop := by
        constructor
        · rw [UInt32.le_iff_toNat_le, back]
          omega
        · rw [UInt32.le_iff_toNat_le, back]
          exact Nat.sub_le _ _
        · exact UInt32.le_refl _
      have rest : stop - (stop - (stop - 1)) = stop - 1 := by
        apply UInt32.toNat_inj.mp
        rw [piece.toNat_rest, back]
        omega
      refine Chops.piece piece ?_
      rw [rest]
      exact ih piece.after (UInt32.le_iff_toNat_le.mp piece.after) (by omega)

theorem Buffer.deleteEach_eq_ok (t : Tiling) (pieces : List (UInt32 × UInt32)) :
    t.buffer.deleteEach pieces = .ok ((t.deleteEach pieces).map Tiling.buffer) := by
  induction pieces generalizing t with
  | nil =>
      rfl
  | cons piece rest ih =>
      rw [deleteEach, Tiling.deleteEach, Buffer.delete_eq_ok]
      cases t.delete piece.1 piece.2 with
      | error cause =>
          rfl
      | ok u =>
          exact ih u

namespace Tiling

variable {t : Tiling}

theorem deleteEach_of_chops {pieces : List (UInt32 × UInt32)} (chops : Chops start stop pieces)
    (bound : stop ≤ t.length) : t.deleteEach pieces = t.delete start stop := by
  induction chops generalizing t with
  | nothing =>
      rw [delete_self bound]
      rfl
  | piece piece _ ih =>
      rcases t.delete_eq_ok piece.order (UInt32.le_trans piece.before bound) with ⟨u, deleted⟩
      rw [deleteEach, deleted, ← delete_rest piece bound deleted]
      exact ih (le_length_delete piece bound deleted)

theorem delete_buffer {u : Tiling} (deleted : t.delete start stop = .ok u) :
    t.buffer.delete start stop = .ok (.ok u.buffer) :=
  Buffer.eq_ok_of_tiling (Buffer.delete_eq_ok t start stop) deleted

theorem delete_by_pieces (t : Tiling) (start stop : UInt32) (le : start ≤ stop)
    (bound : stop ≤ t.length) :
    ∃ u, t.delete start stop = .ok u ∧ t.buffer.delete start stop = .ok (.ok u.buffer) ∧
      (∀ middle, start ≤ middle → middle ≤ stop →
        (∃ v, t.delete middle stop = .ok v ∧ v.delete start middle = .ok u ∧
          t.buffer.delete middle stop = .ok (.ok v.buffer) ∧
          v.buffer.delete start middle = .ok (.ok u.buffer)) ∧
        (∃ v, t.delete start middle = .ok v ∧
          v.delete start (start + (stop - middle)) = .ok u ∧
          t.buffer.delete start middle = .ok (.ok v.buffer) ∧
          v.buffer.delete start (start + (stop - middle)) = .ok (.ok u.buffer))) ∧
      (∀ pieces, Chops start stop pieces → t.deleteEach pieces = .ok u ∧
        t.buffer.deleteEach pieces = .ok (.ok u.buffer)) ∧
      t.buffer.deleteEach (backspaces stop (stop.toNat - start.toNat)) = .ok (.ok u.buffer) := by
  rcases t.delete_eq_ok le bound with ⟨u, whole⟩
  have each : ∀ pieces, Chops start stop pieces → t.deleteEach pieces = .ok u ∧
      t.buffer.deleteEach pieces = .ok (.ok u.buffer) := by
    intro pieces chops
    have deleted := (deleteEach_of_chops chops bound).trans whole
    exact ⟨deleted, Buffer.eq_ok_of_tiling (Buffer.deleteEach_eq_ok t pieces) deleted⟩
  refine ⟨u, whole, delete_buffer whole, ?_, each, (each _ (chops_backspaces le)).2⟩
  intro middle after before
  constructor
  · have piece : PieceOf start stop middle stop := ⟨after, before, UInt32.le_refl _⟩
    rcases t.delete_eq_ok before bound with ⟨v, first⟩
    have second := (delete_rest piece bound first).trans whole
    rw [piece.rest_of_last] at second
    exact ⟨v, first, second, delete_buffer first, delete_buffer second⟩
  · have piece : PieceOf start stop start middle := ⟨UInt32.le_refl _, after, before⟩
    rcases t.delete_eq_ok after (UInt32.le_trans before bound) with ⟨v, first⟩
    have second := (delete_rest piece bound first).trans whole
    rw [piece.rest_of_first] at second
    exact ⟨v, first, second, delete_buffer first, delete_buffer second⟩

/--
Backspacing empties the line, the hairline with it. A stretch inside the line is taken out
in two pieces, and in three of which none is next to the one before it.
-/
theorem delete_by_pieces_after_hairline :
    pairsAfterHairline.buffer.deleteEach (backspaces 10 10) = .ok (.ok empty.buffer) ∧
      ∃ u v : Tiling, u.toList = [⟨0, 9⟩, ⟨2, 1⟩, ⟨3, 2⟩, ⟨5, 5⟩] ∧
        pairsAfterHairline.buffer.delete 5 8 = .ok (.ok v.buffer) ∧
        v.buffer.delete 3 5 = .ok (.ok u.buffer) ∧
        pairsAfterHairline.buffer.deleteEach [(4, 5), (6, 7), (3, 6)] = .ok (.ok u.buffer) := by
  rcases delete_by_pieces pairsAfterHairline 0 10 (by decide) (by decide) with
    ⟨nothing, line, _, _, _, backspaced⟩
  rcases delete_by_pieces pairsAfterHairline 3 8 (by decide) (by decide) with
    ⟨u, stretch, _, halves, each, _⟩
  have chops : Chops 3 8 [(4, 5), (6, 7), (3, 6)] := by
    refine .piece ⟨by decide, by decide, by decide⟩ ?_
    refine .piece ⟨by decide, by decide, by decide⟩ ?_
    exact .piece ⟨by decide, by decide, by decide⟩ .nothing
  rcases (halves 5 (by decide) (by decide)).1 with ⟨v, _, _, later, earlier⟩
  constructor
  · have cleared : pairsAfterHairline.delete 0 10 = .ok empty := rfl
    rw [Except.ok.inj (cleared.symm.trans line)]
    exact backspaced
  · refine ⟨u, v, ?_, later, earlier, (each _ chops).2⟩
    have tokens : (pairsAfterHairline.delete 3 8).map Tiling.toList =
        .ok [⟨0, 9⟩, ⟨2, 1⟩, ⟨3, 2⟩, ⟨5, 5⟩] := by
      cbv
    rw [stretch] at tokens
    exact Except.ok.inj tokens

end Tiling

end TiledText
