import TiledText.Tiling.Basic

/-!
# The packed form of a tiling

A tiling is stored and exchanged as a flat sequence of 32-bit words, two for
each token: its stop and its tag. The words in turn can be written as bytes,
least significant byte first.

Decoding checks three things in order. Bytes have to divide into words, words
into tokens, and the stops have to increase.
-/

namespace TiledText

inductive Packed where
  | words (words : List UInt32)
  | bytes (bytes : List UInt8)
deriving DecidableEq, Repr

namespace Packed

/-!
## Words and tokens
-/

def wordsOfTokens : List Token → List UInt32
  | [] => []
  | token :: rest => token.stop :: token.tag :: wordsOfTokens rest

/-- Pairs the words up. A word left over is refused. -/
def tokensOfWords? : List UInt32 → Option (List Token)
  | [] => some []
  | [_] => none
  | stop :: tag :: rest => (tokensOfWords? rest).map (⟨stop, tag⟩ :: ·)

theorem tokensOfWords?_wordsOfTokens (tokens : List Token) :
    tokensOfWords? (wordsOfTokens tokens) = some tokens := by
  induction tokens with
  | nil =>
      rfl
  | cons token rest ih =>
      simp [wordsOfTokens, tokensOfWords?, ih]

theorem wordsOfTokens_of_tokensOfWords? {words : List UInt32} {tokens : List Token}
    (decoded : tokensOfWords? words = some tokens) : wordsOfTokens tokens = words := by
  fun_induction tokensOfWords? words generalizing tokens with
  | case1 =>
      simp at decoded
      simp [decoded, wordsOfTokens]
  | case2 =>
      simp at decoded
  | case3 stop tag rest ih =>
      obtain ⟨inner, found, rfl⟩ := Option.map_eq_some_iff.mp decoded
      simp [wordsOfTokens, ih found]

/-!
## Words and bytes
-/

/-- The four base-256 digits of a word, the lowest first. -/
def bytesOfWord (word : UInt32) : List UInt8 :=
  [UInt8.ofNat word.toNat, UInt8.ofNat (word.toNat / 256), UInt8.ofNat (word.toNat / 65536),
    UInt8.ofNat (word.toNat / 16777216)]

def wordOfBytes (a b c d : UInt8) : UInt32 :=
  UInt32.ofNat (a.toNat + 256 * b.toNat + 65536 * c.toNat + 16777216 * d.toNat)

def bytesOfWords (words : List UInt32) : List UInt8 :=
  words.flatMap bytesOfWord

/-- Takes the bytes four at a time. Bytes left over are refused. -/
def wordsOfBytes? : List UInt8 → Option (List UInt32)
  | [] => some []
  | a :: b :: c :: d :: rest => (wordsOfBytes? rest).map (wordOfBytes a b c d :: ·)
  | _ => none

end Packed

namespace Tiling

/-!
## Decoding and encoding
-/

def ofWords (words : List UInt32) : Except TilingError Tiling :=
  match Packed.tokensOfWords? words with
  | some tokens => ofTokens tokens.toArray
  | none => .error (.ragged words.length 2)

def ofBytes (bytes : List UInt8) : Except TilingError Tiling :=
  match Packed.wordsOfBytes? bytes with
  | some words => ofWords words
  | none => .error (.ragged bytes.length 4)

def ofPacked : Packed → Except TilingError Tiling
  | .words words => ofWords words
  | .bytes bytes => ofBytes bytes

def words (t : Tiling) : List UInt32 :=
  Packed.wordsOfTokens t.toList

def bytes (t : Tiling) : List UInt8 :=
  Packed.bytesOfWords t.words

end Tiling

end TiledText
