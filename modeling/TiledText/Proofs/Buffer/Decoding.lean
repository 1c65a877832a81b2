import TiledText.Proofs.Buffer.Reading

/-!
# Decoding a buffer

Decoding agrees with the decoding of tilings on whatever can be kept in memory, on
what is refused and why as well as on what is accepted. Taking the words two by two
and testing each step looks for the same thing as walking along the tokens.
-/

namespace TiledText

namespace Buffer

open Checked

/-!
## Items of equal length
-/

theorem length_pairs_le (words : List UInt32) : 2 * (pairs words).length ≤ words.length := by
  fun_induction pairs words with
  | case1 stop tag rest ih =>
      rw [List.length_cons, List.length_cons, List.length_cons]
      omega
  | case2 =>
      exact Nat.zero_le _

theorem length_quads_le (bytes : List UInt8) : 4 * (quads bytes).length ≤ bytes.length := by
  fun_induction quads bytes with
  | case1 a b c d rest ih =>
      rw [List.length_cons, List.length_cons, List.length_cons, List.length_cons,
        List.length_cons]
      omega
  | case2 =>
      exact Nat.zero_le _

theorem tokensOfWords?_eq (words : List UInt32) :
    Packed.tokensOfWords? words = if words.length % 2 = 0 then some (pairs words) else none := by
  fun_induction Packed.tokensOfWords? words with
  | case1 =>
      rfl
  | case2 =>
      rfl
  | case3 stop tag rest ih =>
      rw [ih, List.length_cons, List.length_cons, Nat.add_assoc, Nat.add_mod_right, pairs]
      split
      · rfl
      · rfl

theorem wordsOfBytes?_eq (bytes : List UInt8) :
    Packed.wordsOfBytes? bytes = if bytes.length % 4 = 0 then some (quads bytes) else none := by
  fun_induction Packed.wordsOfBytes? bytes with
  | case1 =>
      rfl
  | case2 a b c d rest ih =>
      rw [ih, List.length_cons, List.length_cons, List.length_cons, List.length_cons,
        Nat.add_assoc, Nat.add_assoc, Nat.add_assoc, Nat.add_mod_right, quads]
      split
      · rfl
      · rfl
  | case3 bytes some short =>
      rcases bytes with _ | ⟨a, _ | ⟨b, _ | ⟨c, _ | ⟨d, rest⟩⟩⟩⟩
      · exact absurd rfl some
      · rfl
      · rfl
      · rfl
      · exact absurd rfl (short a b c d rest)

/-!
## The first disorder
-/

theorem firstDisorder?_eq (tokens : List Token) :
    firstDisorder? tokens =
      ((tokens.zip (tokens.drop 1)).findIdx? fun step => step.2.stop ≤ step.1.stop).map
        (· + 1) := by
  fun_induction firstDisorder? tokens with
  | case1 =>
      rfl
  | case2 =>
      rfl
  | case3 a b rest back =>
      have here : decide (b.stop ≤ a.stop) = true := decide_eq_true back
      rw [List.drop_one, List.tail_cons, List.zip_cons_cons, List.findIdx?_cons, if_pos here]
      rfl
  | case4 a b rest forward ih =>
      rw [ih]
      have here : ¬ decide (b.stop ≤ a.stop) = true := fun back => forward (of_decide_eq_true back)
      rw [List.drop_one, List.drop_one, List.tail_cons, List.tail_cons, List.zip_cons_cons,
        List.findIdx?_cons, if_neg here]

/-!
## Decoding
-/

theorem ofWords_eq_ok {words : List UInt32} (fits : 4 * words.length < addressSize) :
    ofWords words = .ok ((Tiling.ofWords words).map Tiling.buffer) := by
  rw [ofWords, Tiling.ofWords, tokensOfWords?_eq]
  split
  case isTrue odd =>
    rfl
  case isFalse even =>
    have walk := firstDisorder?_eq (pairs words)
    have paired : Packed.tokensOfWords? words = some (pairs words) := by
      rw [tokensOfWords?_eq, if_pos (Decidable.not_not.mp even)]
    rw [if_pos (Decidable.not_not.mp even)]
    simp only
    split
    case h_1 index found =>
      rw [found, Option.map_some] at walk
      have inside := (List.findIdx?_eq_some_iff_getElem.mp found).1
      have few : index + 1 < indexSize := by
        have bound := length_pairs_le words
        rw [List.length_zip] at inside
        rw [addressSize, UInt64.size] at fits
        rw [indexSize, UInt64.size]
        omega
      rw [addIndex_eq_ok few, Tiling.ofTokens_of_disorder walk]
      rfl
    case h_2 sorted =>
      rw [sorted, Option.map_none] at walk
      have increasing := (firstDisorder?_eq_none_iff (pairs words)).mp walk
      have accepted : Tiling.ofTokens (pairs words).toArray =
          .ok ⟨(pairs words).toArray, increasing⟩ :=
        Tiling.ofTokens_toArray_eq_ok_iff.mpr rfl
      rw [accepted, Except.map, Tiling.buffer, Tiling.words, Tiling.toList,
        Packed.wordsOfTokens_of_tokensOfWords? paired]

theorem ofBytes_eq_ok {bytes : List UInt8} (fits : bytes.length < addressSize) :
    ofBytes bytes = .ok ((Tiling.ofBytes bytes).map Tiling.buffer) := by
  have few : 4 * (bytes.length / 4) < addressSize := by omega
  rw [ofBytes, Tiling.ofBytes, wordsOfBytes?_eq]
  split
  case isTrue ragged =>
    rfl
  case isFalse whole =>
    rw [if_pos (Decidable.not_not.mp whole), room_eq_ok few, ok_bind]
    exact ofWords_eq_ok (Nat.lt_of_le_of_lt (length_quads_le bytes) fits)

theorem ofTokens_eq_ok {tokens : List Token} (fits : 8 * tokens.length < addressSize) :
    ofTokens tokens = .ok ((Tiling.ofTokens tokens.toArray).map Tiling.buffer) := by
  have count : mulIndex tokens.length 2 = .ok (tokens.length * 2) := by
    rw [addressSize, UInt64.size] at fits
    exact mulIndex_eq_ok (by rw [indexSize, UInt64.size]; omega)
  have few : 4 * (tokens.length * 2) < addressSize := by omega
  rw [ofTokens, count, ok_bind, room_eq_ok few, ok_bind, ← Tiling.ofWords_wordsOfTokens]
  exact ofWords_eq_ok (by rw [Packed.length_wordsOfTokens]; omega)

end Buffer

end TiledText
