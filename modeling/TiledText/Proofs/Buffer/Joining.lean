import TiledText.Proofs.Buffer.Spans
import TiledText.Proofs.Replay

/-!
# Joining by the rules

The joining of two lines is decided by four questions, asked one after the other. Is the
second line without tokens, or the first? Is the joined line too long for its offsets?
Does the second line begin with a hairline? Only then are its tokens laid after those of
the first line, every stop moved on by the length of that line.

For states there is a fifth question. Where a line is unknown the joined line is unknown,
whatever the other one is, and it does not matter that lines without tokens are asked for
first.
-/

namespace TiledText

namespace Tiling

/-!
## What a joining makes
-/

theorem hairline_iff_head?_words (t : Tiling) :
    t.hairline = true ↔ t.words.head? = some 0 := by
  unfold hairline words
  cases t.toList with
  | nil =>
      simp [Packed.wordsOfTokens]
  | cons token rest =>
      simp [Packed.wordsOfTokens]

theorem grow_zero : Token.grow 0 = id := by
  funext token
  simp [Token.grow]

theorem toList_append {t u v : Tiling} (joined : t.append u = .ok v) :
    v.toList = t.toList ++ u.toList.map (Token.grow t.length) := by
  rcases append_cases joined with ⟨bare, same⟩ | ⟨_, bare, same⟩ | ⟨_, _, _, tokens⟩
  · rw [same, isEmpty_iff.mp bare]
    exact (List.append_nil _).symm
  · have still : Token.grow empty.length = id := grow_zero
    rw [same, isEmpty_iff.mp bare, still, List.map_id]
    rfl
  · rw [toList, tokens, toList_joinTokens]

theorem length_append {t u v : Tiling} (joined : t.append u = .ok v) :
    v.length.toNat = t.length.toNat + u.length.toNat := by
  rw [← length_tags, tags_append joined, List.length_append, length_tags, length_tags]

/-!
## When it fails
-/

theorem append_eq_error_iff {t u : Tiling} (first : t.isEmpty = false)
    (second : u.isEmpty = false) {cause : TilingError} :
    t.append u = .error cause ↔
      (UInt32.size ≤ t.length.toNat + u.length.toNat ∧
          cause = .overflow t.length u.length) ∨
        (t.length.toNat + u.length.toNat < UInt32.size ∧ u.words.head? = some 0 ∧
          cause = .unordered t.size) := by
  by_cases fits : Fits t.length u.length
  · have short : ¬ UInt32.size ≤ t.length.toNat + u.length.toNat := Nat.not_le_of_lt fits
    have room : t.length.toNat + u.length.toNat < UInt32.size := fits
    rw [← u.hairline_iff_head?_words]
    cases thin : u.hairline with
    | true =>
        rw [append_of_hairline fits first thin]
        simp [short, room, eq_comm]
    | false =>
        rcases append_eq_ok fits (Or.inr thin) with ⟨v, joined⟩
        rw [joined]
        simp [short]
  · have long : UInt32.size ≤ t.length.toNat + u.length.toNat := Nat.le_of_not_lt fits
    have failed : t.append u = .error (.overflow t.length u.length) := by
      rw [append, first, second, if_neg fits]
      rfl
    rw [failed]
    simp [long, Nat.not_lt_of_le long, eq_comm]

end Tiling

/-!
## States
-/

/-- The rules for two states, in their order: lines without tokens come before unknown ones. -/
def LineState.appendByRules (first second : LineState) : Except TilingError LineState :=
  if second.any Tiling.isEmpty then
    .ok first
  else if first.any Tiling.isEmpty then
    .ok second
  else
    match first, second with
    | some t, some u => (t.append u).map some
    | _, _ => .ok none

theorem LineState.append_eq_appendByRules (first second : LineState) :
    first.append second = first.appendByRules second := by
  unfold appendByRules
  cases second with
  | none =>
      rw [append_none]
      cases first with
      | none =>
          rfl
      | some t =>
          simp
  | some u =>
      cases first with
      | none =>
          simp [append]
      | some t =>
          cases after : u.isEmpty with
          | true =>
              simp [append, Tiling.append, after, Except.map]
          | false =>
              cases before : t.isEmpty with
              | true =>
                  simp [append, Tiling.append, before, after, Except.map]
              | false =>
                  simp [append, before, after]

namespace Tiling

/-!
## The rules together

A line without tokens leaves the other one as it is. Of two lines with tokens the joining
fails if they are too long together, and otherwise if the second begins with a hairline, and
the causes are reported with the lengths and with the place of the hairline. An unknown state
makes an unknown one.
-/

/-- The words of the first line are followed by those of the second, its stops moved on. -/
structure Joined (t u v : Tiling) : Prop where
  words : v.words = t.words ++ Packed.wordsOfTokens (u.toList.map (Token.grow t.length))
  stops : ∀ token ∈ u.toList,
    (token.grow t.length).stop.toNat = token.stop.toNat + t.length.toNat
  length : v.length.toNat = t.length.toNat + u.length.toNat
  tags : v.tags = t.tags ++ u.tags

structure AppendsByRules (t u : Tiling) : Prop where
  buffer : t.buffer.append u.buffer = .ok ((t.append u).map Tiling.buffer)
  secondEmpty : u.isEmpty = true → t.append u = .ok t
  firstEmpty : u.isEmpty = false → t.isEmpty = true → t.append u = .ok u
  refused : u.isEmpty = false → t.isEmpty = false → ∀ cause, t.append u = .error cause ↔
    (UInt32.size ≤ t.length.toNat + u.length.toNat ∧ cause = .overflow t.length u.length) ∨
      (t.length.toNat + u.length.toNat < UInt32.size ∧ u.words.head? = some 0 ∧
        cause = .unordered t.size)
  joined : u.isEmpty = false → t.isEmpty = false →
    t.length.toNat + u.length.toNat < UInt32.size → u.words.head? ≠ some 0 →
    ∃ v, t.append u = .ok v ∧ Joined t u v
  states : ∀ first second : LineState, first.append second = first.appendByRules second
  unknown : ∀ first second : LineState, first = none ∨ second = none →
    first.append second = .ok none

theorem append_by_rules (t u : Tiling) : t.AppendsByRules u where
  buffer := Buffer.append_eq_ok t u
  secondEmpty := by
    intro second
    simp [append, second]
  firstEmpty := by
    intro second first
    simp [append, second, first]
  refused := fun second first _ => append_eq_error_iff first second
  joined := by
    intro second first fits thick
    have plain : u.hairline = false := by
      rw [Bool.eq_false_iff]
      exact fun thin => thick (u.hairline_iff_head?_words.mp thin)
    rcases append_eq_ok fits (Or.inr plain) with ⟨v, joined⟩
    refine ⟨v, joined, ?_, ?_, length_append joined, tags_append joined⟩
    · rw [words, toList_append joined, Packed.wordsOfTokens_append]
      rfl
    · intro token member
      exact stop_grow_of_mem_second fits member
  states := fun first second => first.append_eq_appendByRules second
  unknown := fun _ _ => LineState.append_eq_none_iff.mpr

def twoWords : Tiling :=
  ⟨#[⟨3, 1⟩, ⟨6, 2⟩], by decide⟩

/-- A hairline may stand at the beginning of the first line, but not of the second. -/
theorem append_by_rules_with_hairline :
    (∃ v, pairsAfterHairline.append twoWords = .ok v ∧
        pairsAfterHairline.buffer.append twoWords.buffer = .ok (.ok v.buffer) ∧
        v.words = [0, 9, 2, 1, 4, 2, 6, 3, 8, 4, 10, 5, 13, 1, 16, 2] ∧
        v.tags = [1, 1, 2, 2, 3, 3, 4, 4, 5, 5, 1, 1, 1, 2, 2, 2]) ∧
      twoWords.append pairsAfterHairline = .error (.unordered 2) ∧
      LineState.append none (some empty) = .ok none := by
  have law := append_by_rules pairsAfterHairline twoWords
  rcases law.joined (by decide) (by decide) (by decide) (by decide) with ⟨v, joined, whole⟩
  have reversed := (append_by_rules twoWords pairsAfterHairline).refused (by decide) (by decide)
  have inPlace := law.buffer
  rw [joined] at inPlace
  refine ⟨⟨v, joined, inPlace, ?_, ?_⟩, ?_, law.unknown none (some empty) (Or.inl rfl)⟩
  · exact whole.words.trans (by decide)
  · exact whole.tags.trans (by decide)
  · exact (reversed _).mpr (Or.inr (by decide))

end Tiling

end TiledText
