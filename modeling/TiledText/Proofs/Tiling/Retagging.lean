import TiledText.Proofs.Tiling.RoundTrip

/-!
# Tags carry no meaning

Tags can be rewritten by any function, even one that gives different tags the same
value. A tiling with rewritten tags has the stops it had. Every operation on it has the
result that it has on the tiling as it was, with the tags of the result rewritten, and
refuses what it refused before, for the same reason.

In packed data the tags stand at every second word. Rewriting them there and decoding
is the same as decoding first, also where the data is refused.
-/

namespace TiledText

/-!
## Searching what has been mapped
-/

theorem bisect_map (f : α → β) (p : β → Bool) {xs : Array α} {lo hi : Nat}
    (bound : hi ≤ xs.size) (bound' : hi ≤ (xs.map f).size) :
    bisect (xs.map f) p lo hi bound' = bisect xs (p ∘ f) lo hi bound := by
  fun_induction bisect xs (p ∘ f) lo hi bound with
  | case1 lo hi bound window middle inside holds ih =>
      have probe : p (xs.map f)[lo + (hi - lo) / 2] = true := by
        simpa using holds
      rw [bisect, dif_pos window]
      simp only [if_pos probe]
      exact ih bound'
  | case2 lo hi bound window middle inside fails ih =>
      have probe : ¬ p (xs.map f)[lo + (hi - lo) / 2] = true := by
        simpa using fails
      rw [bisect, dif_pos window]
      simp only [if_neg probe]
      exact ih _
  | case3 lo hi bound window =>
      rw [bisect, dif_neg window]

theorem partitionPoint_map (f : α → β) (xs : Array α) (p : β → Bool) :
    partitionPoint (xs.map f) p = partitionPoint xs (p ∘ f) := by
  unfold partitionPoint
  simp only [Array.size_map]
  exact bisect_map f p (Nat.le_refl _) _

theorem leading_map (f : α → β) (xs : Array α) (p : β → Bool) :
    leading (xs.map f) p = (leading xs (p ∘ f)).map f := by
  simp [leading, partitionPoint_map]

theorem trailing_map (f : α → β) (xs : Array α) (p : β → Bool) :
    trailing (xs.map f) p = (trailing xs (p ∘ f)).map f := by
  simp [trailing, partitionPoint_map]

/-!
## Tokens and tilings
-/

def Token.retag (g : UInt32 → UInt32) (token : Token) : Token :=
  { token with tag := g token.tag }

variable (g : UInt32 → UInt32)

theorem increasing_retag {tokens : List Token} :
    Increasing (tokens.map (Token.retag g)) ↔ Increasing tokens :=
  List.pairwise_map

theorem firstDisorder?_retag (tokens : List Token) :
    firstDisorder? (tokens.map (Token.retag g)) = firstDisorder? tokens := by
  fun_induction firstDisorder? tokens with
  | case1 =>
      rfl
  | case2 a =>
      rfl
  | case3 a b rest back =>
      simp [firstDisorder?, Token.retag, back]
  | case4 a b rest forward ih =>
      rw [List.map_cons] at ih
      simp [firstDisorder?, Token.retag, forward, ← ih]

namespace Tiling

def retag (t : Tiling) : Tiling where
  tokens := t.tokens.map (Token.retag g)
  ordered := by
    rw [Array.toList_map]
    exact (increasing_retag g).mpr t.ordered

theorem toList_retag (t : Tiling) : (t.retag g).toList = t.toList.map (Token.retag g) :=
  Array.toList_map

theorem retag_empty : empty.retag g = empty := by
  simp [retag, empty]

theorem isEmpty_retag (t : Tiling) : (t.retag g).isEmpty = t.isEmpty := by
  simp [isEmpty, retag, Array.isEmpty]

theorem size_retag (t : Tiling) : (t.retag g).size = t.size :=
  Array.size_map

theorem token?_retag (t : Tiling) (index : Nat) :
    (t.retag g).token? index = (t.token? index).map (Token.retag g) :=
  Array.getElem?_map

theorem reach_retag (tokens : Array Token) :
    reach (tokens.map (Token.retag g)) = reach tokens := by
  unfold reach
  rw [Array.back?_map]
  cases tokens.back? with
  | none =>
      rfl
  | some last =>
      rfl

theorem length_retag (t : Tiling) : (t.retag g).length = t.length :=
  reach_retag g t.tokens

/-!
A search by offset looks at stops only, so it goes through rewritten tokens as it goes
through the tokens that were there.
-/

theorem stopsBy_comp_retag (offset : UInt32) :
    stopsBy offset ∘ Token.retag g = stopsBy offset :=
  rfl

theorem stopsBefore_comp_retag (offset : UInt32) :
    stopsBefore offset ∘ Token.retag g = stopsBefore offset :=
  rfl

/-!
## Editing
-/

theorem severed?_retag (t : Tiling) (start stop : UInt32) :
    (t.retag g).severed? start stop = (t.severed? start stop).map (Token.retag g) := by
  unfold severed?
  simp only [retag, leading_map, partitionPoint_map, stopsBy_comp_retag, reach_retag]
  split
  · rw [Array.getElem?_map, Option.filter_map, stopsBy_comp_retag, Option.map_map, Option.map_map]
    rfl
  · rfl

theorem cutTokens_retag (t : Tiling) (start stop : UInt32) :
    (t.retag g).cutTokens start stop = (t.cutTokens start stop).map (Token.retag g) := by
  have severed : ((t.severed? start stop).map (Token.retag g)).toArray =
      (t.severed? start stop).toArray.map (Token.retag g) := by
    cases t.severed? start stop with
    | none =>
        simp
    | some token =>
        simp
  unfold cutTokens
  rw [severed?_retag, severed]
  simp only [retag, leading_map, trailing_map, stopsBy_comp_retag, Array.map_append,
    Array.map_map]
  rfl

theorem delete_retag (t : Tiling) (start stop : UInt32) :
    (t.retag g).delete start stop = (t.delete start stop).map (retag g) := by
  unfold delete
  simp only [isEmpty_retag, length_retag, cutTokens_retag]
  split
  · rfl
  · split
    · split
      · rfl
      · split
        · rw [Except.map, retag_empty]
        · rfl
    · rfl

theorem widenTokens_retag (t : Tiling) (offset width : UInt32) :
    (t.retag g).widenTokens offset width = (t.widenTokens offset width).map (Token.retag g) := by
  unfold widenTokens
  simp only [retag, leading_map, trailing_map, stopsBefore_comp_retag, Array.map_append,
    Array.map_map]
  rfl

theorem insert_retag (t : Tiling) (offset width : UInt32) :
    (t.retag g).insert offset width = (t.insert offset width).map (retag g) := by
  unfold insert
  simp only [isEmpty_retag, length_retag, widenTokens_retag]
  split
  · rfl
  · split
    · rfl
    · split
      · rfl
      · split
        · rfl
        · rfl

theorem ofTokens_retag (tokens : Array Token) :
    ofTokens (tokens.map (Token.retag g)) = (ofTokens tokens).map (retag g) := by
  cases found : firstDisorder? tokens.toList with
  | some index =>
      have same := firstDisorder?_retag g tokens.toList
      rw [found, ← Array.toList_map] at same
      rw [ofTokens_of_disorder found, ofTokens_of_disorder same]
      rfl
  | none =>
      have increasing := (firstDisorder?_eq_none_iff _).mp found
      have accepted : ofTokens tokens = .ok ⟨tokens, increasing⟩ := ofTokens_eq_ok_iff.mpr rfl
      rw [accepted]
      exact ofTokens_eq_ok_iff.mpr rfl

theorem joinTokens_retag (t u : Tiling) :
    (t.retag g).joinTokens (u.retag g) = (t.joinTokens u).map (Token.retag g) := by
  unfold joinTokens
  rw [length_retag]
  simp only [retag, Array.map_append, Array.map_map]
  rfl

theorem append_retag (t u : Tiling) :
    (t.retag g).append (u.retag g) = (t.append u).map (retag g) := by
  unfold append
  simp only [isEmpty_retag, length_retag, joinTokens_retag, ofTokens_retag]
  split
  · rfl
  · split
    · rfl
    · split
      · rfl
      · rfl

end Tiling

/-!
## Packed data
-/

namespace Packed

/-- Rewrites the second word of each pair. A word left over is a stop. -/
def retagWords (g : UInt32 → UInt32) : List UInt32 → List UInt32
  | stop :: tag :: rest => stop :: g tag :: retagWords g rest
  | rest => rest

/-- Rewrites the second half of every eight bytes. Bytes left over stay as they are. -/
def retagBytes (g : UInt32 → UInt32) : List UInt8 → List UInt8
  | a :: b :: c :: d :: e :: f :: h :: i :: rest =>
      a :: b :: c :: d :: (bytesOfWord (g (wordOfBytes e f h i)) ++ retagBytes g rest)
  | rest => rest

def retag (g : UInt32 → UInt32) : Packed → Packed
  | .words list => .words (retagWords g list)
  | .bytes list => .bytes (retagBytes g list)

theorem length_retagWords (words : List UInt32) :
    (retagWords g words).length = words.length := by
  fun_induction retagWords g words with
  | case1 stop tag rest ih =>
      simp [ih]
  | case2 rest short =>
      rfl

theorem length_retagBytes (bytes : List UInt8) :
    (retagBytes g bytes).length = bytes.length := by
  fun_induction retagBytes g bytes with
  | case1 a b c d e f h i rest ih =>
      simp [ih, bytesOfWord]
  | case2 rest short =>
      rfl

theorem wordsOfTokens_retag (tokens : List Token) :
    wordsOfTokens (tokens.map (Token.retag g)) = retagWords g (wordsOfTokens tokens) := by
  induction tokens with
  | nil =>
      rfl
  | cons token rest ih =>
      rw [List.map_cons, wordsOfTokens, wordsOfTokens, retagWords, ih]
      rfl

theorem tokensOfWords?_retag (words : List UInt32) :
    tokensOfWords? (retagWords g words) =
      (tokensOfWords? words).map (List.map (Token.retag g)) := by
  fun_induction tokensOfWords? words with
  | case1 =>
      rfl
  | case2 =>
      rfl
  | case3 stop tag rest ih =>
      rw [retagWords, tokensOfWords?, ih, Option.map_map, Option.map_map]
      rfl

theorem wordsOfBytes?_bytesOfWord_append (word : UInt32) (rest : List UInt8) :
    wordsOfBytes? (bytesOfWord word ++ rest) = (wordsOfBytes? rest).map (word :: ·) := by
  conv => rhs; rw [← wordOfBytes_digits word]
  rfl

theorem wordsOfBytes?_retag (bytes : List UInt8) :
    wordsOfBytes? (retagBytes g bytes) = (wordsOfBytes? bytes).map (retagWords g) := by
  fun_induction retagBytes g bytes with
  | case1 a b c d e f h i rest ih =>
      rw [wordsOfBytes?, wordsOfBytes?_bytesOfWord_append, ih, wordsOfBytes?, wordsOfBytes?]
      cases wordsOfBytes? rest with
      | none =>
          rfl
      | some words =>
          rfl
  | case2 bytes short =>
      -- Fewer than eight bytes hold one word at most, and no tag.
      rcases bytes with
        _ | ⟨a, _ | ⟨b, _ | ⟨c, _ | ⟨d, _ | ⟨e, _ | ⟨f, _ | ⟨h, _ | ⟨i, rest⟩⟩⟩⟩⟩⟩⟩⟩
      · rfl
      · rfl
      · rfl
      · rfl
      · rfl
      · rfl
      · rfl
      · rfl
      · exact absurd rfl (short a b c d e f h i rest)

end Packed

namespace Tiling

theorem words_retag (t : Tiling) : (t.retag g).words = Packed.retagWords g t.words := by
  rw [words, words, toList_retag, Packed.wordsOfTokens_retag]

theorem ofWords_retag (words : List UInt32) :
    ofWords (Packed.retagWords g words) = (ofWords words).map (retag g) := by
  unfold ofWords
  rw [Packed.tokensOfWords?_retag, Packed.length_retagWords]
  cases Packed.tokensOfWords? words with
  | none =>
      rfl
  | some tokens =>
      have decoded := ofTokens_retag g tokens.toArray
      rw [List.map_toArray] at decoded
      exact decoded

theorem ofBytes_retag (bytes : List UInt8) :
    ofBytes (Packed.retagBytes g bytes) = (ofBytes bytes).map (retag g) := by
  unfold ofBytes
  rw [Packed.wordsOfBytes?_retag, Packed.length_retagBytes]
  cases Packed.wordsOfBytes? bytes with
  | none =>
      rfl
  | some words =>
      exact ofWords_retag g words

theorem ofPacked_retag (packed : Packed) :
    ofPacked (packed.retag g) = (ofPacked packed).map (retag g) := by
  cases packed with
  | words words =>
      exact ofWords_retag g words
  | bytes bytes =>
      exact ofBytes_retag g bytes

end Tiling

end TiledText
