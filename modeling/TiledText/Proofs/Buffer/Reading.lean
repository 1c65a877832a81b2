import TiledText.Buffer.Basic
import TiledText.Proofs.Tiling.RoundTrip

/-!
# Reading a buffer

Reading the buffer that holds a tiling never faults, and it finds what is read off the
tiling itself. The stops increase strictly, so a tiling has no more tokens than an
offset has values, and twice their number is still a small index.
-/

namespace TiledText

namespace Packed

theorem wordsOfTokens_append (before after : List Token) :
    wordsOfTokens (before ++ after) = wordsOfTokens before ++ wordsOfTokens after := by
  induction before with
  | nil =>
      rfl
  | cons token rest ih =>
      rw [List.cons_append, wordsOfTokens, wordsOfTokens, ih]
      rfl

theorem getElem?_wordsOfTokens_tag (tokens : List Token) (k : Nat) :
    (wordsOfTokens tokens)[2 * k + 1]? = tokens[k]?.map Token.tag := by
  induction tokens generalizing k with
  | nil =>
      rfl
  | cons token rest ih =>
      cases k with
      | zero =>
          rfl
      | succ j =>
          rw [wordsOfTokens, Nat.mul_succ, Nat.add_right_comm, List.getElem?_cons_succ,
            List.getElem?_cons_succ, ih, List.getElem?_cons_succ]

end Packed

namespace Tiling

/-!
## The number of tokens
-/

theorem size_eq_length_toList (t : Tiling) : t.size = t.toList.length :=
  rfl

theorem token?_eq_getElem? (t : Tiling) (index : Nat) : t.token? index = t.toList[index]? :=
  Array.getElem?_toList.symm

theorem le_stop {tokens : List Token} (increasing : Increasing tokens) {k : Nat}
    (inside : k < tokens.length) : k ≤ tokens[k].stop.toNat := by
  induction k with
  | zero =>
      exact Nat.zero_le _
  | succ j ih =>
      have earlier := ih (Nat.lt_of_succ_lt inside)
      have step := List.pairwise_iff_getElem.mp increasing j (j + 1) (Nat.lt_of_succ_lt inside)
        inside (Nat.lt_succ_self j)
      exact Nat.lt_of_le_of_lt earlier (UInt32.lt_iff_toNat_lt.mp step)

theorem size_le (t : Tiling) : t.size ≤ UInt32.size := by
  apply Nat.le_of_not_lt
  intro more
  rw [size_eq_length_toList] at more
  exact absurd (UInt32.toNat_lt_size _) (Nat.not_lt_of_le (le_stop t.ordered more))

theorem reach_eq_stop {tokens : Array Token} {last : Nat} {token : Token}
    (final : tokens.toList.length = last + 1) (there : tokens.toList[last]? = some token) :
    reach tokens = token.stop := by
  have back : tokens.back? = some token := by
    rw [← Array.getLast?_toList, List.getLast?_eq_getElem?, final, Nat.add_sub_cancel, there]
  rw [reach, back]

/-- The token at an offset comes after those that stop by then, the last token excepted. -/
theorem lt_indexAt_iff (t : Tiling) (offset : UInt32) {k : Nat}
    (inside : k + 1 < t.toList.length) :
    k < t.indexAt offset ↔ t.toList[k].stop ≤ offset := by
  have probe := lt_length_takeWhile_iff (t.partitioned_stopsBy offset) (Nat.lt_of_succ_lt inside)
  rw [indexAt, partitionPoint_eq (t.partitioned_stopsBy offset), size_eq_length_toList,
    Nat.lt_min, probe, stopsBy, decide_eq_true_eq]
  exact ⟨fun both => both.1, fun past => ⟨past, by omega⟩⟩

end Tiling

namespace Buffer

open Checked

theorem index_lt (t : Tiling) {n : Nat} (small : n ≤ 2 * t.toList.length + 4) :
    n < indexSize := by
  have bound := t.size_le
  rw [t.size_eq_length_toList, UInt32.size] at bound
  rw [indexSize, UInt64.size]
  omega

/-!
## Reading
-/

theorem length_words_buffer (t : Tiling) : t.buffer.words.length = 2 * t.toList.length :=
  t.length_words

theorem size_buffer (t : Tiling) : t.buffer.size = t.toList.length := by
  rw [size, length_words_buffer, Nat.mul_div_cancel_left _ Nat.two_pos]

theorem isEmpty_buffer (t : Tiling) : t.buffer.isEmpty = t.isEmpty := by
  rw [Bool.eq_iff_iff, isEmpty, List.isEmpty_iff, ← List.length_eq_zero_iff,
    length_words_buffer, Tiling.isEmpty, Array.isEmpty_iff_size_eq_zero, Tiling.toList,
    Array.length_toList]
  omega

theorem pairs_wordsOfTokens (tokens : List Token) :
    pairs (Packed.wordsOfTokens tokens) = tokens := by
  induction tokens with
  | nil =>
      rfl
  | cons token rest ih =>
      rw [Packed.wordsOfTokens, pairs, ih]

theorem tokens_buffer (t : Tiling) : t.buffer.tokens = t.toList :=
  pairs_wordsOfTokens t.toList

theorem spans_buffer (t : Tiling) : t.buffer.spans = t.spans := by
  rw [spans, tokens_buffer]
  rfl

theorem getElem?_words_buffer (t : Tiling) (k : Nat) :
    t.buffer.words[2 * k]? = t.toList[k]?.map Token.stop :=
  Packed.getElem?_wordsOfTokens t.toList k

theorem getElem?_words_buffer_tag (t : Tiling) (k : Nat) :
    t.buffer.words[2 * k + 1]? = t.toList[k]?.map Token.tag :=
  Packed.getElem?_wordsOfTokens_tag t.toList k

theorem length_buffer (t : Tiling) : t.buffer.length = .ok t.length := by
  unfold length
  rw [length_words_buffer]
  cases count : t.toList.length with
  | zero =>
      have bare : t.toList = [] := List.length_eq_zero_iff.mp count
      rw [if_pos rfl, Tiling.length, Tiling.reach, ← Array.getLast?_toList, ← Tiling.toList, bare]
      rfl
  | succ last =>
      have final := List.getElem?_eq_getElem (l := t.toList) (i := last) (by omega)
      have there : t.buffer.words[2 * (last + 1) - 2]? = some t.length := by
        rw [Nat.mul_succ, Nat.add_sub_cancel, getElem?_words_buffer, final, Option.map_some,
          Tiling.length, Tiling.reach_eq_stop count final]
      rw [if_neg (by omega), subIndex_eq_ok (by omega)]
      exact read_eq_ok there

theorem mulIndex_two {n : Nat} (fits : 2 * n < indexSize) : mulIndex n 2 = .ok (2 * n) := by
  rw [Nat.mul_comm]
  exact mulIndex_eq_ok (by omega)

theorem stop_buffer {t : Tiling} {k : Nat} {token : Token} (here : t.toList[k]? = some token) :
    t.buffer.stop k = .ok token.stop := by
  have inside := (List.getElem?_eq_some_iff.mp here).1
  have there : t.buffer.words[2 * k]? = some token.stop := by
    rw [getElem?_words_buffer, here, Option.map_some]
  rw [stop, stopBy, Overflow.mulIndex, mulIndex_two (index_lt t (by omega))]
  exact read_eq_ok there

theorem start_buffer (t : Tiling) {k : Nat} (inside : k < t.toList.length) :
    t.buffer.start k = .ok (Tiling.reach (t.tokens.take k)) := by
  have first : (t.tokens.take k).toList = t.toList.take k := by
    rw [Array.toList_extract, List.extract_eq_take_drop, List.drop_zero, Nat.sub_zero]
    rfl
  cases k with
  | zero =>
      rw [start, startBy, if_pos rfl, Tiling.reach, ← Array.getLast?_toList, first]
      rfl
  | succ j =>
      have before : t.toList[j]? = some t.toList[j] := List.getElem?_eq_getElem (by omega)
      have count : (t.tokens.take (j + 1)).toList.length = j + 1 := by
        rw [first, List.length_take, Nat.min_eq_left (Nat.le_of_lt inside)]
      have final : (t.tokens.take (j + 1)).toList[j]? = some t.toList[j] := by
        rw [first, List.getElem?_take_of_lt (Nat.lt_succ_self j), before]
      rw [start, startBy, if_neg (Nat.succ_ne_zero j), subIndex_eq_ok (Nat.succ_pos j),
        Tiling.reach_eq_stop count final]
      exact stop_buffer before

theorem token?_buffer (t : Tiling) (index : Nat) :
    t.buffer.token? index = .ok (t.token? index) := by
  have stop := getElem?_words_buffer t index
  have tag := getElem?_words_buffer_tag t index
  rw [token?, t.token?_eq_getElem?, Nat.mul_comm, stop]
  cases found : t.toList[index]? with
  | none =>
      exact ite_self _
  | some token =>
      have inside := (List.getElem?_eq_some_iff.mp found).1
      rw [found] at tag
      rw [if_pos (index_lt t (by omega)), Option.map_some]
      have next := addIndex_eq_ok (index_lt t (n := 2 * index + 1) (by omega))
      simp only [next, ok_bind, tag, Option.map_some, pure_eq_ok]

/-!
## Searching
-/

theorem halfway_eq_ok {low high : Nat} (window : low < high) (fits : high < indexSize) :
    halfway low high = .ok (low + (high - low) / 2) := by
  rw [halfway, subIndex_eq_ok (Nat.le_of_lt window)]
  exact addIndex_eq_ok (by omega)

/-- The search keeps the index that it looks for inside its window. -/
theorem search_buffer (t : Tiling) (offset : UInt32) {low high : Nat}
    (above : low ≤ t.indexAt offset) (below : t.indexAt offset ≤ high)
    (inside : high < t.toList.length) :
    t.buffer.search offset low high = .ok (t.indexAt offset) := by
  unfold search
  split
  case isTrue window =>
    have middle := halfway_eq_ok window (index_lt t (by omega))
    have narrow : low + (high - low) / 2 + 1 < t.toList.length := by omega
    have probe := t.lt_indexAt_iff offset narrow
    have step : addIndex (low + (high - low) / 2) 1 = .ok (low + (high - low) / 2 + 1) :=
      addIndex_eq_ok (index_lt t (by omega))
    have here : t.buffer.stop (low + (high - low) / 2) =
        .ok t.toList[low + (high - low) / 2].stop :=
      stop_buffer (List.getElem?_eq_getElem (by omega))
    simp only [held_eq_ok middle, ok_bind, here]
    split
    case isTrue past =>
      have further := probe.mpr past
      simp only [held_eq_ok step, ok_bind]
      exact search_buffer t offset further below inside
    case isFalse short =>
      have here := Nat.le_of_not_lt fun further => short (probe.mp further)
      exact search_buffer t offset above here (by omega)
  case isFalse closed =>
    rw [Nat.le_antisymm above (by omega)]
termination_by high - low

theorem indexAt_buffer (t : Tiling) (offset : UInt32) :
    t.buffer.indexAt offset = .ok (t.indexAt offset) := by
  have last : t.indexAt offset ≤ t.toList.length - 1 := Nat.min_le_right _ _
  unfold indexAt
  rw [size_buffer]
  split
  case isTrue few =>
    rw [Nat.le_zero.mp (Nat.le_trans last (by omega))]
  case isFalse many =>
    rw [subIndex_eq_ok (by omega)]
    exact search_buffer t offset (Nat.zero_le _) last (by omega)

end Buffer

end TiledText
