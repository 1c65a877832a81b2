import Mathlib.Algebra.Group.Nat.Defs
import TiledText.Proofs.Tiling.Joining
import TiledText.Tiling.Packed

/-!
# Encoding and decoding

A word is four bytes, the lowest first, and a token is two words. Either step can
be undone, and whatever decodes is the encoding of what it decodes to. Decoding
therefore accepts exactly the encodings of tilings. Two forms of the same data are
accepted or refused alike, and for the same reason.
-/

namespace TiledText

namespace Packed

/-!
## Words of tokens
-/

theorem length_wordsOfTokens (tokens : List Token) :
    (wordsOfTokens tokens).length = 2 * tokens.length := by
  induction tokens with
  | nil =>
      rfl
  | cons token rest ih =>
      rw [wordsOfTokens, List.length_cons, List.length_cons, ih, List.length_cons, Nat.mul_succ]

theorem getElem?_wordsOfTokens (tokens : List Token) (k : Nat) :
    (wordsOfTokens tokens)[2 * k]? = tokens[k]?.map Token.stop := by
  induction tokens generalizing k with
  | nil =>
      rfl
  | cons token rest ih =>
      cases k with
      | zero =>
          rfl
      | succ j =>
          rw [wordsOfTokens, Nat.mul_succ, List.getElem?_cons_succ, List.getElem?_cons_succ, ih,
            List.getElem?_cons_succ]

/-!
## Words and bytes
-/

theorem length_bytesOfWord (word : UInt32) : (bytesOfWord word).length = 4 :=
  rfl

/-- The byte at place `k` is the base-256 digit of weight `256 ^ k`. -/
theorem getElem?_bytesOfWord (word : UInt32) (k : Fin 4) :
    (bytesOfWord word)[k.val]? = some (UInt8.ofNat (word.toNat / 256 ^ k.val)) := by
  match k with
  | 0 =>
      rw [Fin.val_zero, Nat.pow_zero, Nat.div_one]
      rfl
  | 1 =>
      rfl
  | 2 =>
      rfl
  | 3 =>
      rfl

theorem bytesOfWord_wordOfBytes (a b c d : UInt8) :
    bytesOfWord (wordOfBytes a b c d) = [a, b, c, d] := by
  have small := a.toNat_lt
  have second := b.toNat_lt
  have third := c.toNat_lt
  have fourth := d.toNat_lt
  have value : (wordOfBytes a b c d).toNat =
      a.toNat + 256 * b.toNat + 65536 * c.toNat + 16777216 * d.toNat := by
    rw [wordOfBytes, UInt32.toNat_ofNat']
    omega
  have digit : ∀ (n : Nat) (byte : UInt8), n % 256 = byte.toNat → UInt8.ofNat n = byte := by
    intro n byte same
    apply UInt8.toNat_inj.mp
    rw [UInt8.toNat_ofNat']
    exact same
  rw [bytesOfWord, value, digit _ a (by omega), digit _ b (by omega), digit _ c (by omega),
    digit _ d (by omega)]

theorem wordOfBytes_digits (word : UInt32) :
    wordOfBytes (UInt8.ofNat word.toNat) (UInt8.ofNat (word.toNat / 256))
      (UInt8.ofNat (word.toNat / 65536)) (UInt8.ofNat (word.toNat / 16777216)) = word := by
  have bound := word.toNat_lt
  apply UInt32.toNat_inj.mp
  rw [wordOfBytes, UInt32.toNat_ofNat', UInt8.toNat_ofNat', UInt8.toNat_ofNat',
    UInt8.toNat_ofNat', UInt8.toNat_ofNat']
  omega

theorem wordsOfBytes?_bytesOfWords (words : List UInt32) :
    wordsOfBytes? (bytesOfWords words) = some words := by
  induction words with
  | nil =>
      rfl
  | cons word rest ih =>
      rw [bytesOfWords, List.flatMap_cons, bytesOfWord, ← bytesOfWords, List.cons_append,
        List.cons_append, List.cons_append, List.cons_append, List.nil_append, wordsOfBytes?, ih,
        wordOfBytes_digits, Option.map_some]

theorem bytesOfWords_of_wordsOfBytes? {bytes : List UInt8} {words : List UInt32}
    (decoded : wordsOfBytes? bytes = some words) : bytesOfWords words = bytes := by
  fun_induction wordsOfBytes? bytes generalizing words with
  | case1 =>
      cases decoded
      rfl
  | case2 a b c d rest ih =>
      rcases Option.map_eq_some_iff.mp decoded with ⟨inner, found, rfl⟩
      rw [bytesOfWords, List.flatMap_cons, ← bytesOfWords, ih found, bytesOfWord_wordOfBytes]
      rfl
  | case3 =>
      cases decoded

theorem length_bytesOfWords (words : List UInt32) :
    (bytesOfWords words).length = 4 * words.length := by
  induction words with
  | nil =>
      rfl
  | cons word rest ih =>
      rw [bytesOfWords, List.flatMap_cons, List.length_append, length_bytesOfWord, ← bytesOfWords,
        ih, List.length_cons, Nat.mul_succ, Nat.add_comm]

theorem getElem?_bytesOfWords (words : List UInt32) (i : Nat) (k : Fin 4) :
    (bytesOfWords words)[4 * i + k.val]? =
      words[i]?.map fun word => UInt8.ofNat (word.toNat / 256 ^ k.val) := by
  induction words generalizing i with
  | nil =>
      rfl
  | cons word rest ih =>
      rw [bytesOfWords, List.flatMap_cons, ← bytesOfWords]
      cases i with
      | zero =>
          have inside : 4 * 0 + k.val < (bytesOfWord word).length := by
            rw [length_bytesOfWord]
            omega
          rw [List.getElem?_append_left inside, Nat.mul_zero, Nat.zero_add, getElem?_bytesOfWord]
          rfl
      | succ j =>
          have beyond : (bytesOfWord word).length ≤ 4 * (j + 1) + k.val := by
            rw [length_bytesOfWord]
            omega
          have place : 4 * (j + 1) + k.val - (bytesOfWord word).length = 4 * j + k.val := by
            rw [length_bytesOfWord]
            omega
          rw [List.getElem?_append_right beyond, place, ih, List.getElem?_cons_succ]

end Packed

namespace Tiling

/-!
## The words of a tiling

The words come in pairs, and at the even places stand the stops of the tokens, in order.
-/

theorem length_words (t : Tiling) : t.words.length = 2 * t.size := by
  rw [words, Packed.length_wordsOfTokens]
  rfl

theorem words_increase (t : Tiling) {k : Nat} {a b : UInt32} (first : t.words[2 * k]? = some a)
    (second : t.words[2 * (k + 1)]? = some b) : a < b := by
  rw [words, Packed.getElem?_wordsOfTokens, Option.map_eq_some_iff] at first second
  rcases first with ⟨x, here, rfl⟩
  rcases second with ⟨y, next, rfl⟩
  rcases List.getElem?_eq_some_iff.mp here with ⟨inside, rfl⟩
  rcases List.getElem?_eq_some_iff.mp next with ⟨further, rfl⟩
  exact List.pairwise_iff_getElem.mp t.ordered k (k + 1) inside further (Nat.lt_succ_self k)

/-!
## Two forms of the same data
-/

theorem ofWords_wordsOfTokens (tokens : List Token) :
    ofWords (Packed.wordsOfTokens tokens) = ofTokens tokens.toArray := by
  rw [ofWords, Packed.tokensOfWords?_wordsOfTokens]

theorem ofBytes_bytesOfWords (words : List UInt32) :
    ofBytes (Packed.bytesOfWords words) = ofWords words := by
  rw [ofBytes, Packed.wordsOfBytes?_bytesOfWords]

/-!
## What decodes

Bytes, words and tokens each decode to a tiling exactly if they are what the tiling is encoded
as. Words and their bytes, tokens and their words decode alike, also where they are refused.
-/

theorem ofTokens_toArray_eq_ok_iff {tokens : List Token} {t : Tiling} :
    ofTokens tokens.toArray = .ok t ↔ tokens = t.toList := by
  rw [ofTokens_eq_ok_iff, toList]
  constructor
  · intro same
    rw [same]
  · intro same
    rw [same]

theorem ofWords_eq_ok_iff {words : List UInt32} {t : Tiling} :
    ofWords words = .ok t ↔ words = t.words := by
  constructor
  · intro accepted
    rw [ofWords] at accepted
    split at accepted
    case h_1 tokens paired =>
      rw [Tiling.words, ← ofTokens_toArray_eq_ok_iff.mp accepted,
        Packed.wordsOfTokens_of_tokensOfWords? paired]
    case h_2 _ =>
      cases accepted
  · intro same
    rw [same, Tiling.words, ofWords_wordsOfTokens, ofTokens_toArray_eq_ok_iff]

theorem ofBytes_eq_ok_iff {bytes : List UInt8} {t : Tiling} :
    ofBytes bytes = .ok t ↔ bytes = t.bytes := by
  constructor
  · intro accepted
    rw [ofBytes] at accepted
    split at accepted
    case h_1 words grouped =>
      rw [Tiling.bytes, ← ofWords_eq_ok_iff.mp accepted,
        Packed.bytesOfWords_of_wordsOfBytes? grouped]
    case h_2 _ =>
      cases accepted
  · intro same
    rw [same, Tiling.bytes, ofBytes_bytesOfWords, ofWords_eq_ok_iff]

theorem decode_eq_ok_iff (t : Tiling) (words : List UInt32) (bytes : List UInt8)
    (tokens : List Token) :
    (ofBytes bytes = .ok t ↔ bytes = t.bytes) ∧
      (ofWords words = .ok t ↔ words = t.words) ∧
      (ofTokens tokens.toArray = .ok t ↔ tokens = t.toList) ∧
      ofBytes (Packed.bytesOfWords words) = ofWords words ∧
      ofTokens tokens.toArray = ofWords (Packed.wordsOfTokens tokens) ∧
      ofPacked (.bytes (Packed.bytesOfWords words)) = ofPacked (.words words) ∧
      ∀ (i : Nat) (k : Fin 4), (Packed.bytesOfWords words)[4 * i + k.val]? =
        words[i]?.map fun word => UInt8.ofNat (word.toNat / 256 ^ k.val) :=
  ⟨ofBytes_eq_ok_iff, ofWords_eq_ok_iff, ofTokens_toArray_eq_ok_iff, ofBytes_bytesOfWords words,
    (ofWords_wordsOfTokens tokens).symm, ofBytes_bytesOfWords words,
    Packed.getElem?_bytesOfWords words⟩

/-- Three words are half a token short, however they are written. -/
example : ofBytes (Packed.bytesOfWords [1, 2, 3]) = .error (.ragged 3 2) :=
  rfl

end Tiling

end TiledText
