import TiledText.Proofs.Buffer.Decoding
import TiledText.Proofs.Buffer.Deletion
import TiledText.Proofs.Tiling.Insertion

/-!
# Insertion and joining in a buffer

Insertion and joining add to the stops of a tiling. No sum is too large, because the
longest of them, the length of the new line, is looked at first.

The token to widen is found by the search that deletion uses, followed by one step
back at a boundary. It is the first token that does not stop before the offset.
-/

namespace TiledText

namespace Buffer

open Checked

/-!
## The token to widen

At a boundary the token that stops there widens, and the search finds the next one.
-/

theorem lt_length_takeWhile_stopsBefore_iff (t : Tiling) (offset : UInt32) {k : Nat}
    (inside : k < t.toList.length) :
    k < (t.toList.takeWhile (Tiling.stopsBefore offset)).length ↔ t.toList[k].stop < offset := by
  have probe := lt_length_takeWhile_iff (t.partitioned_stopsBefore offset) inside
  rw [Tiling.stopsBefore, decide_eq_true_eq] at probe
  exact probe

theorem length_takeWhile_stopsBefore_lt {t : Tiling} (nonempty : t.isEmpty = false)
    {offset : UInt32} (inside : offset ≤ t.length) :
    (t.toList.takeWhile (Tiling.stopsBefore offset)).length < t.toList.length := by
  cases count : t.toList.length with
  | zero =>
      exact absurd (List.length_eq_zero_iff.mp count) (Tiling.toList_ne_nil nonempty)
  | succ last =>
      have bound : last < t.toList.length := by omega
      have final : t.length = t.toList[last].stop :=
        Tiling.reach_eq_stop count (List.getElem?_eq_getElem bound)
      have probe := lt_length_takeWhile_stopsBefore_iff t offset bound
      rw [final] at inside
      apply Nat.lt_succ_of_le
      exact Nat.le_of_not_lt fun past => UInt32.not_lt.mpr inside (probe.mp past)

/-- The token to widen does not come after the one that is found. -/
theorem length_takeWhile_stopsBefore_le {t : Tiling} (nonempty : t.isEmpty = false)
    {offset : UInt32} (inside : offset ≤ t.length) :
    (t.toList.takeWhile (Tiling.stopsBefore offset)).length ≤ t.indexAt offset := by
  have few := length_takeWhile_stopsBefore_lt nonempty inside
  cases count : (t.toList.takeWhile (Tiling.stopsBefore offset)).length with
  | zero =>
      exact Nat.zero_le _
  | succ before =>
      have bound : before + 1 < t.toList.length := by omega
      have early := (lt_length_takeWhile_stopsBefore_iff t offset (k := before) (by omega)).mp
        (by omega)
      exact (t.lt_indexAt_iff offset bound).mpr (UInt32.le_of_lt early)

theorem length_takeWhile_stopsBefore_of_boundary {t : Tiling} {offset : UInt32} {k : Nat}
    (inside : k < t.toList.length) (boundary : t.toList[k].stop = offset) :
    (t.toList.takeWhile (Tiling.stopsBefore offset)).length = k := by
  have probe := lt_length_takeWhile_stopsBefore_iff t offset inside
  rw [boundary] at probe
  apply Nat.le_antisymm
  · exact Nat.le_of_not_lt fun past => UInt32.lt_irrefl offset (probe.mp past)
  · cases k with
    | zero =>
        exact Nat.zero_le _
    | succ before =>
        have step := List.pairwise_iff_getElem.mp t.ordered before (before + 1)
          (Nat.lt_of_succ_lt inside) inside (Nat.lt_succ_self before)
        apply (lt_length_takeWhile_stopsBefore_iff t offset (Nat.lt_of_succ_lt inside)).mpr
        rw [← boundary]
        exact step

theorem widest_eq_ok {t : Tiling} (nonempty : t.isEmpty = false) {offset : UInt32}
    (inside : offset ≤ t.length) :
    t.buffer.widest offset = .ok (t.toList.takeWhile (Tiling.stopsBefore offset)).length := by
  have upTo := length_takeWhile_stopsBefore_le nonempty inside
  have last : t.indexAt offset ≤ t.toList.length - 1 := Nat.min_le_right _ _
  rw [widest, indexAt_buffer, ok_bind]
  cases index : t.indexAt offset with
  | zero =>
      rw [index] at upTo
      rw [if_neg (Nat.lt_irrefl 0), Nat.le_zero.mp upTo]
      rfl
  | succ before =>
      rw [index] at upTo last
      have bound : before < t.toList.length := by omega
      have here : t.toList[before]? = some t.toList[before] := List.getElem?_eq_getElem bound
      have back : subIndex (before + 1) 1 = .ok before := subIndex_eq_ok (Nat.succ_pos before)
      rw [if_pos (Nat.succ_pos before), back, ok_bind, stop_buffer here, ok_bind]
      split
      case isTrue boundary =>
        rw [length_takeWhile_stopsBefore_of_boundary bound boundary]
      case isFalse within =>
        have past : before < t.indexAt offset := by omega
        have found := (t.lt_indexAt_iff offset (by omega)).mp past
        have early := (lt_length_takeWhile_stopsBefore_iff t offset bound).mpr
          (UInt32.lt_of_le_of_ne found within)
        rw [pure_eq_ok, Nat.le_antisymm upTo early]

/-!
## Insertion
-/

theorem widen_eq_ok {t : Tiling} {width : UInt32} (fits : Tiling.Fits t.length width)
    (p : Token → Bool) :
    adjust (add · width) t.buffer.words (t.toList.takeWhile p).length
        (t.buffer.size - (t.toList.takeWhile p).length) =
      .ok (Packed.wordsOfTokens
        (t.toList.takeWhile p ++ (t.toList.dropWhile p).map (Token.grow width))) := by
  have whole := List.takeWhile_append_dropWhile (p := p) (l := t.toList)
  have count := congrArg List.length whole
  have words : t.buffer.words =
      Packed.wordsOfTokens (t.toList.takeWhile p ++ t.toList.dropWhile p) := by
    rw [whole]
    rfl
  rw [List.length_append] at count
  have few : 2 * ((t.toList.takeWhile p).length + (t.toList.dropWhile p).length) < indexSize := by
    rw [count]
    exact index_lt t (Nat.le_add_right _ 4)
  have changes : ∀ token ∈ t.toList.dropWhile p,
      add token.stop width = .ok (token.grow width).stop := by
    intro token member
    have inside := (List.dropWhile_sublist p).subset member
    have bound := UInt32.le_iff_toNat_le.mp (t.stop_le_length (Array.mem_def.mpr inside))
    exact add_eq_ok (Nat.lt_of_le_of_lt (Nat.add_le_add_right bound _) fits)
  rw [size_buffer, words, ← count, Nat.add_sub_cancel_left]
  exact adjust_eq_ok (add · width) (Token.grow width) (fun _ => rfl) _ few changes

theorem insert_eq_ok (t : Tiling) (offset width : UInt32) :
    t.buffer.insert offset width = .ok ((t.insert offset width).map Tiling.buffer) := by
  unfold insert Tiling.insert
  rw [isEmpty_buffer]
  split
  case isTrue bare =>
    rfl
  case isFalse filled =>
    rw [length_buffer, ok_bind]
    split
    case isTrue outside =>
      rfl
    case isFalse inside =>
      split
      case isTrue zero =>
        rfl
      case isFalse wide =>
        by_cases fits : Tiling.Fits t.length width
        · rw [if_pos fits, dif_pos fits,
            widest_eq_ok (Bool.eq_false_iff.mpr filled) (UInt32.not_lt.mp inside), ok_bind,
            widen_eq_ok fits, ok_bind, ← t.toList_widenTokens offset width]
          rfl
        · rw [if_neg fits, dif_neg fits]
          rfl

/-!
## Joining
-/

theorem rebase_eq_ok {length : UInt32} {tokens : List Token}
    (fits : ∀ token ∈ tokens, token.stop.toNat + length.toNat < UInt32.size) :
    rebase length tokens = .ok (Packed.wordsOfTokens (tokens.map (Token.grow length))) := by
  induction tokens with
  | nil =>
      rfl
  | cons token rest ih =>
      have later := ih fun other member => fits other (List.mem_cons_of_mem _ member)
      rw [rebase, add_eq_ok (fits token (List.mem_cons_self ..)), ok_bind, later]
      rfl

theorem length_words_add_lt (t u : Tiling) :
    4 * (t.buffer.words.length + u.buffer.words.length) < addressSize := by
  have first := t.size_le
  have second := u.size_le
  rw [Tiling.size_eq_length_toList, UInt32.size] at first second
  rw [length_words_buffer, length_words_buffer, addressSize, UInt64.size]
  omega

theorem append_eq_ok (t u : Tiling) :
    t.buffer.append u.buffer = .ok ((t.append u).map Tiling.buffer) := by
  unfold append Tiling.append
  rw [isEmpty_buffer, isEmpty_buffer]
  split
  case isTrue bare =>
    rfl
  case isFalse filled =>
    split
    case isTrue bare =>
      rfl
    case isFalse first =>
      rw [length_buffer, ok_bind, length_buffer, ok_bind]
      split
      case isTrue fits =>
        have space := length_words_add_lt t u
        have sum : addIndex t.buffer.words.length u.buffer.words.length =
            .ok (t.buffer.words.length + u.buffer.words.length) := by
          rw [addressSize, UInt64.size] at space
          exact addIndex_eq_ok (by rw [indexSize, UInt64.size]; omega)
        have moved : ∀ token ∈ u.toList, token.stop.toNat + t.length.toNat < UInt32.size := by
          intro token member
          rw [← Tiling.stop_grow_of_mem_second fits member]
          exact UInt32.toNat_lt_size _
        have joined : t.buffer.words ++
              Packed.wordsOfTokens (u.toList.map (Token.grow t.length)) =
            Packed.wordsOfTokens (t.joinTokens u).toList := by
          rw [Tiling.toList_joinTokens, Packed.wordsOfTokens_append]
          rfl
        have few : 4 * (Packed.wordsOfTokens (t.joinTokens u).toList).length < addressSize := by
          rw [← joined, List.length_append, Packed.length_wordsOfTokens, List.length_map,
            ← length_words_buffer]
          exact space
        rw [sum, ok_bind, room_eq_ok space, ok_bind, tokens_buffer, rebase_eq_ok moved, ok_bind,
          joined, ofWords_eq_ok few, Tiling.ofWords_wordsOfTokens]
      case isFalse long =>
        rfl

end Buffer

end TiledText
