import Mathlib.Data.Nat.Find
import TiledText.Proofs.Buffer.Decoding

/-!
# What decoding refuses

Bytes are refused for one of three reasons, looked for in this order: they do not divide
into words, the words do not divide into tokens, or a token does not stop after the one
before it. In the last case it is the first such token that is reported.

The reasons are read off the bytes by place. The numbers at the even places are the stops.
Nothing is asked of the first of them, and what stands at the odd places is not looked at.
-/

namespace TiledText

/-!
## The first fall

The walk along the tokens stops where the stops first fall, and stops that increase do not
fall.
-/

/-- The stop at the index is there and does not come after the stop before it. -/
def Falls (stop? : Nat → Option UInt32) (index : Nat) : Prop :=
  1 ≤ index ∧ ∃ before here, stop? (index - 1) = some before ∧ stop? index = some here ∧
    here ≤ before

def FirstFalls (stop? : Nat → Option UInt32) (index : Nat) : Prop :=
  Falls stop? index ∧ ∀ earlier < index, ¬ Falls stop? earlier

theorem FirstFalls.unique {stop? : Nat → Option UInt32} {index other : Nat}
    (first : FirstFalls stop? index) (second : FirstFalls stop? other) : index = other := by
  apply Nat.le_antisymm
  · exact Nat.le_of_not_lt fun earlier => first.2 other earlier second.1
  · exact Nat.le_of_not_lt fun earlier => second.2 index earlier first.1

theorem exists_firstFalls {stop? : Nat → Option UInt32} {index : Nat}
    (fall : Falls stop? index) : ∃ first, FirstFalls stop? first := by
  classical
  have somewhere : ∃ index, Falls stop? index := ⟨index, fall⟩
  exact ⟨Nat.find somewhere, Nat.find_spec somewhere, fun _ => Nat.find_min somewhere⟩

def stopIn? (tokens : List Token) (index : Nat) : Option UInt32 :=
  tokens[index]?.map Token.stop

theorem falls_one (a b : Token) (rest : List Token) :
    Falls (stopIn? (a :: b :: rest)) 1 ↔ b.stop ≤ a.stop := by
  simp [Falls, stopIn?]

theorem falls_cons (token : Token) (rest : List Token) (index : Nat) :
    Falls (stopIn? (token :: rest)) (index + 2) ↔ Falls (stopIn? rest) (index + 1) := by
  simp [Falls, stopIn?]

theorem not_falls_zero (stop? : Nat → Option UInt32) : ¬ Falls stop? 0 :=
  fun fall => absurd fall.1 (Nat.not_succ_le_zero 0)

theorem firstFalls_of_firstDisorder? {tokens : List Token} {index : Nat}
    (found : firstDisorder? tokens = some index) : FirstFalls (stopIn? tokens) index := by
  fun_induction firstDisorder? tokens generalizing index with
  | case1 =>
      cases found
  | case2 =>
      cases found
  | case3 a b rest back =>
      cases found
      constructor
      · exact (falls_one a b rest).mpr back
      · intro earlier before
        rw [Nat.lt_one_iff.mp before]
        exact not_falls_zero _
  | case4 a b rest forward ih =>
      rcases Option.map_eq_some_iff.mp found with ⟨place, later, rfl⟩
      have fall := ih later
      -- The place is counted in the rest, and the first token of the rest does not fall there.
      cases place with
      | zero =>
          exact absurd fall.1 (not_falls_zero _)
      | succ k =>
          constructor
          · exact (falls_cons a (b :: rest) k).mpr fall.1
          · intro earlier before falls
            cases earlier with
            | zero =>
                exact not_falls_zero _ falls
            | succ other =>
                cases other with
                | zero =>
                    exact forward ((falls_one a b rest).mp falls)
                | succ j =>
                    have inner := (falls_cons a (b :: rest) j).mp falls
                    exact fall.2 (j + 1) (Nat.lt_of_succ_lt_succ before) inner

theorem not_falls_of_increasing {tokens : List Token} (increasing : Increasing tokens)
    (index : Nat) : ¬ Falls (stopIn? tokens) index := by
  rintro ⟨later, before, here, first, second, le⟩
  rcases Option.map_eq_some_iff.mp first with ⟨a, left, rfl⟩
  rcases Option.map_eq_some_iff.mp second with ⟨b, right, rfl⟩
  rcases List.getElem?_eq_some_iff.mp left with ⟨inside, rfl⟩
  rcases List.getElem?_eq_some_iff.mp right with ⟨further, rfl⟩
  have step := List.pairwise_iff_getElem.mp increasing (index - 1) index inside further
    (Nat.sub_one_lt_of_lt later)
  exact UInt32.not_lt.mpr le step

theorem firstDisorder?_eq_some_iff {tokens : List Token} {index : Nat} :
    firstDisorder? tokens = some index ↔ FirstFalls (stopIn? tokens) index := by
  constructor
  · exact firstFalls_of_firstDisorder?
  · intro first
    cases walk : firstDisorder? tokens with
    | none =>
        have increasing := (firstDisorder?_eq_none_iff tokens).mp walk
        exact absurd first.1 (not_falls_of_increasing increasing index)
    | some other =>
        rw [(firstFalls_of_firstDisorder? walk).unique first]

/-!
## Reading bytes by place
-/

namespace Packed

def wordAt? (bytes : List UInt8) (place : Nat) : Option UInt32 := do
  let a ← bytes[4 * place]?
  let b ← bytes[4 * place + 1]?
  let c ← bytes[4 * place + 2]?
  let d ← bytes[4 * place + 3]?
  return wordOfBytes a b c d

/-- Every second word is a stop. -/
def stopAt? (bytes : List UInt8) (index : Nat) : Option UInt32 :=
  wordAt? bytes (2 * index)

theorem wordAt?_bytesOfWords (words : List UInt32) (place : Nat) :
    wordAt? (bytesOfWords words) place = words[place]? := by
  have digits := getElem?_bytesOfWords words place
  cases found : words[place]? with
  | none =>
      have first : (bytesOfWords words)[4 * place]? = none := by
        simpa [found] using digits 0
      simp [wordAt?, first]
  | some word =>
      rw [found] at digits
      have first : (bytesOfWords words)[4 * place]? = some (UInt8.ofNat (word.toNat / 1)) :=
        digits 0
      have second : (bytesOfWords words)[4 * place + 1]? =
          some (UInt8.ofNat (word.toNat / 256)) := digits 1
      have third : (bytesOfWords words)[4 * place + 2]? =
          some (UInt8.ofNat (word.toNat / 65536)) := digits 2
      have fourth : (bytesOfWords words)[4 * place + 3]? =
          some (UInt8.ofNat (word.toNat / 16777216)) := digits 3
      rw [Nat.div_one] at first
      simp only [wordAt?, first, second, third, fourth, Option.bind_eq_bind, Option.bind_some]
      exact congrArg some (wordOfBytes_digits word)

theorem exists_words {bytes : List UInt8} (whole : bytes.length % 4 = 0) :
    ∃ words, bytes = bytesOfWords words ∧ bytes.length = 4 * words.length := by
  have grouped := Buffer.wordsOfBytes?_eq bytes
  rw [if_pos whole] at grouped
  have same := bytesOfWords_of_wordsOfBytes? grouped
  refine ⟨_, same.symm, ?_⟩
  rw [← length_bytesOfWords, same]

theorem exists_tokens {words : List UInt32} (even : words.length % 2 = 0) :
    ∃ tokens, words = wordsOfTokens tokens := by
  have paired := Buffer.tokensOfWords?_eq words
  rw [if_pos even] at paired
  exact ⟨_, (wordsOfTokens_of_tokensOfWords? paired).symm⟩

theorem stopAt?_of_tokens (tokens : List Token) :
    stopAt? (bytesOfWords (wordsOfTokens tokens)) = stopIn? tokens := by
  funext index
  rw [stopAt?, wordAt?_bytesOfWords, getElem?_wordsOfTokens]
  rfl

end Packed

namespace Tiling

/-!
## The causes
-/

theorem ofTokens_eq_error_iff {tokens : List Token} {cause : TilingError} :
    ofTokens tokens.toArray = .error cause ↔
      ∃ index, FirstFalls (stopIn? tokens) index ∧ cause = .unordered index := by
  constructor
  · intro refused
    unfold ofTokens at refused
    split at refused
    case h_1 index found =>
      cases refused
      exact ⟨index, firstDisorder?_eq_some_iff.mp found, rfl⟩
    case h_2 sorted =>
      cases refused
  · rintro ⟨index, first, rfl⟩
    exact ofTokens_of_disorder (firstDisorder?_eq_some_iff.mpr first)

theorem ofBytes_of_ragged {bytes : List UInt8} (ragged : bytes.length % 4 ≠ 0) :
    ofBytes bytes = .error (.ragged bytes.length 4) := by
  rw [ofBytes, Buffer.wordsOfBytes?_eq, if_neg ragged]

theorem ofWords_of_odd {words : List UInt32} (odd : words.length % 2 ≠ 0) :
    ofWords words = .error (.ragged words.length 2) := by
  rw [ofWords, Buffer.tokensOfWords?_eq, if_neg odd]

/--
Bytes are refused exactly for these causes. The count of the bytes is looked at before the
count of the words, and both before the stops.
-/
theorem ofBytes_eq_error_iff {bytes : List UInt8} {cause : TilingError} :
    ofBytes bytes = .error cause ↔
      (bytes.length % 4 ≠ 0 ∧ cause = .ragged bytes.length 4) ∨
        (bytes.length % 4 = 0 ∧ bytes.length / 4 % 2 = 1 ∧
          cause = .ragged (bytes.length / 4) 2) ∨
        (bytes.length % 4 = 0 ∧ bytes.length / 4 % 2 = 0 ∧
          ∃ index, FirstFalls (Packed.stopAt? bytes) index ∧ cause = .unordered index) := by
  by_cases whole : bytes.length % 4 = 0
  · rcases Packed.exists_words whole with ⟨words, same, length⟩
    have count : bytes.length / 4 = words.length := by
      rw [length, Nat.mul_div_cancel_left _ (Nat.succ_pos 3)]
    rw [count, same, ofBytes_bytesOfWords, ← same]
    cases Nat.mod_two_eq_zero_or_one words.length with
    | inl even =>
        rcases Packed.exists_tokens even with ⟨tokens, paired⟩
        rw [same, paired, ofWords_wordsOfTokens, ofTokens_eq_error_iff, Packed.stopAt?_of_tokens,
          ← paired, ← same]
        simp [whole, even]
    | inr odd =>
        rw [ofWords_of_odd (by simp [odd])]
        simp [whole, odd, eq_comm]
  · rw [ofBytes_of_ragged whole]
    simp [whole, eq_comm]

/-!
## Decoding in full

The decoding of any bytes. The cause of a refusal is the first that applies of a ragged end,
half a token and a fall of the stops, and of the falls it is the first. Without a cause the
bytes are accepted and are those of the tiling. Two sequences of one length with the same stops
are refused alike, whatever their tags are. A buffer is decoded in the same way from all bytes
that fit into memory.
-/

theorem exists_ofBytes_iff {bytes : List UInt8} :
    (∃ t, ofBytes bytes = .ok t) ↔
      bytes.length % 4 = 0 ∧ bytes.length / 4 % 2 = 0 ∧
        ∀ index, ¬ Falls (Packed.stopAt? bytes) index := by
  constructor
  · rintro ⟨t, accepted⟩
    have free : ∀ cause, ofBytes bytes ≠ .error cause := by
      intro cause refused
      rw [accepted] at refused
      cases refused
    have whole : bytes.length % 4 = 0 :=
      Decidable.byContradiction fun ragged => free _ (ofBytes_of_ragged ragged)
    have even : bytes.length / 4 % 2 = 0 := by
      cases Nat.mod_two_eq_zero_or_one (bytes.length / 4) with
      | inl even =>
          exact even
      | inr odd =>
          exact absurd (ofBytes_eq_error_iff.mpr (Or.inr (Or.inl ⟨whole, odd, rfl⟩))) (free _)
    refine ⟨whole, even, ?_⟩
    intro index fall
    rcases exists_firstFalls fall with ⟨first, falls⟩
    exact free _ (ofBytes_eq_error_iff.mpr (Or.inr (Or.inr ⟨whole, even, first, falls, rfl⟩)))
  · rintro ⟨whole, even, forward⟩
    cases result : ofBytes bytes with
    | ok t =>
        exact ⟨t, rfl⟩
    | error cause =>
        rcases ofBytes_eq_error_iff.mp result with
          ⟨ragged, _⟩ | ⟨_, odd, _⟩ | ⟨_, _, index, first, _⟩
        · exact absurd whole ragged
        · rw [even] at odd
          cases odd
        · exact absurd first.1 (forward index)

theorem ofBytes_refuses (bytes : List UInt8) :
    (∀ cause, ofBytes bytes = .error cause ↔
        (bytes.length % 4 ≠ 0 ∧ cause = .ragged bytes.length 4) ∨
          (bytes.length % 4 = 0 ∧ bytes.length / 4 % 2 = 1 ∧
            cause = .ragged (bytes.length / 4) 2) ∨
          (bytes.length % 4 = 0 ∧ bytes.length / 4 % 2 = 0 ∧
            ∃ index, FirstFalls (Packed.stopAt? bytes) index ∧ cause = .unordered index)) ∧
      ((∃ t, ofBytes bytes = .ok t ∧ t.bytes = bytes) ↔
        bytes.length % 4 = 0 ∧ bytes.length / 4 % 2 = 0 ∧
          ∀ index, ¬ Falls (Packed.stopAt? bytes) index) ∧
      (∀ other : List UInt8, other.length = bytes.length →
        Packed.stopAt? other = Packed.stopAt? bytes →
          ∀ cause, ofBytes other = .error cause ↔ ofBytes bytes = .error cause) ∧
      (bytes.length < Checked.addressSize →
        Buffer.ofBytes bytes = .ok ((ofBytes bytes).map Tiling.buffer)) := by
  refine ⟨fun cause => ofBytes_eq_error_iff, ?_, ?_, Buffer.ofBytes_eq_ok⟩
  · rw [← exists_ofBytes_iff]
    constructor
    · rintro ⟨t, accepted, _⟩
      exact ⟨t, accepted⟩
    · rintro ⟨t, accepted⟩
      exact ⟨t, accepted, (ofBytes_eq_ok_iff.mp accepted).symm⟩
  · intro other count stops cause
    rw [ofBytes_eq_error_iff, ofBytes_eq_error_iff, count, stops]

/-- Four tokens of which the second falls, and a hairline that is followed by another stop. -/
theorem ofBytes_refuses_second :
    ofBytes (Packed.bytesOfWords [10, 1, 1, 2, 3, 3, 12, 4]) = .error (.unordered 1) ∧
      (∃ t, ofBytes (Packed.bytesOfWords [0, 9, 1, 0]) = .ok t ∧
        t.bytes = [0, 0, 0, 0, 9, 0, 0, 0, 1, 0, 0, 0, 0, 0, 0, 0]) ∧
      Buffer.ofBytes (List.replicate 12 0) = .ok (.error (.ragged 3 2)) := by
  refine ⟨?_, ?_, ?_⟩
  · apply ((ofBytes_refuses _).1 _).mpr
    refine Or.inr (Or.inr ⟨by decide, by decide, 1, ⟨⟨by decide, 10, 1, ?_⟩, ?_⟩, rfl⟩)
    · decide
    · intro earlier less
      rw [Nat.lt_one_iff.mp less]
      exact not_falls_zero _
  · have forward : ∀ index, ¬ Falls (Packed.stopAt? (Packed.bytesOfWords [0, 9, 1, 0])) index := by
      intro index
      show ¬ Falls (Packed.stopAt? (Packed.bytesOfWords
        (Packed.wordsOfTokens [⟨0, 9⟩, ⟨1, 0⟩]))) index
      rw [Packed.stopAt?_of_tokens]
      exact not_falls_of_increasing (by decide) index
    rcases (ofBytes_refuses _).2.1.mpr ⟨by decide, by decide, forward⟩ with ⟨t, accepted, same⟩
    exact ⟨t, accepted, same.trans (by decide)⟩
  · rw [(ofBytes_refuses (List.replicate 12 0)).2.2.2 (by decide)]
    rw [((ofBytes_refuses (List.replicate 12 0)).1 (.ragged 3 2)).mpr (Or.inr (Or.inl (by decide)))]
    rfl

end Tiling

end TiledText
