import TiledText.Proofs.Json.Number

/-!
# Lexemes as they are spelled

A word is a lexeme that does not say itself where it ends. The characters that words
consist of are no boundaries, so the first boundary ends a word.
-/

namespace TiledText
namespace Json

/-!
## Words
-/

theorem mem_of_isBoundary {c : Char} (boundary : isBoundary c = true) :
    c ∈ ['"', ' ', '\t', '\n', '\r', '\x7b', '\x7d', '[', ']', ':', ','] := by
  rw [isBoundary, Bool.or_eq_true, Bool.or_eq_true] at boundary
  rcases boundary with (quote | blank) | mark
  · simp [beq_iff_eq.mp quote]
  · simp only [isBlank, Bool.or_eq_true, beq_iff_eq] at blank
    rcases blank with ((rfl | rfl) | rfl) | rfl
    all_goals decide
  · unfold punctuation? at mark
    split at mark
    all_goals first | decide | cases mark

theorem isBoundary_of_digit {c : Char} (digit : c.isDigit = true) : isBoundary c = false := by
  cases boundary : isBoundary c with
  | false =>
      rfl
  | true =>
      have listed := mem_of_isBoundary boundary
      simp only [List.mem_cons, List.not_mem_nil, or_false] at listed
      rcases listed with rfl | rfl | rfl | rfl | rfl | rfl | rfl | rfl | rfl | rfl | rfl
      all_goals exact absurd digit (by decide)

/-- None of the characters ends a word. -/
def Ordinary (text : Text) : Prop :=
  ∀ c ∈ text, isBoundary c = false

theorem Ordinary.cons {c : Char} {text : Text} (first : isBoundary c = false)
    (ordinary : Ordinary text) : Ordinary (c :: text) :=
  List.forall_mem_cons.mpr ⟨first, ordinary⟩

theorem Ordinary.append {text other : Text} (ordinary : Ordinary text)
    (after : Ordinary other) : Ordinary (text ++ other) :=
  List.forall_mem_append.mpr ⟨ordinary, after⟩

theorem Ordinary.nil : Ordinary [] :=
  fun _ member => nomatch member

theorem Digits.ordinary {digits : Text} (grammar : Digits digits) : Ordinary digits :=
  fun c member => isBoundary_of_digit (grammar.digit c member)

theorem Number.ordinary {text : Text} (grammar : Number text) : Ordinary text := by
  obtain ⟨letter, integer, fraction, exponent⟩ := grammar
  refine .append ?_ (.append ?_ (.append ?_ ?_))
  · rcases letter with rfl | rfl
    · exact .nil
    · exact .cons rfl .nil
  · cases integer with
    | zero =>
        exact .cons rfl .nil
    | digits digits _ =>
        exact digits.ordinary
  · cases fraction with
    | none =>
        exact .nil
    | point digits =>
        exact .cons rfl digits.ordinary
  · cases exponent with
    | none =>
        exact .nil
    | mark letter signed digits =>
        refine .cons ?_ (.append ?_ digits.ordinary)
        · rcases letter with rfl | rfl
          · rfl
          · rfl
        · rcases signed with rfl | rfl | rfl
          · exact .nil
          · exact .cons rfl .nil
          · exact .cons rfl .nil

theorem Number.ne_nil {text : Text} (grammar : Number text) : text ≠ [] := by
  obtain ⟨_, integer, _, _⟩ := grammar
  obtain ⟨c, rest, same, _⟩ := integer.head []
  rw [List.append_nil] at same
  simp [same]

theorem word?_of_number {literal : Text} (grammar : Number literal) :
    word? literal = some (.number literal) := by
  have number := isNumber_iff.mpr grammar
  have apart : ∀ name, isNumber name = false → literal ≠ name := by
    intro name other same
    rw [same, other] at number
    cases number
  rw [word?, if_neg (apart _ (by decide)), if_neg (apart _ (by decide)),
    if_neg (apart _ (by decide)), if_pos number]

theorem isWord_of_punctuation? {c : Char} {lexeme : Lexeme}
    (mark : punctuation? c = some lexeme) : lexeme.isWord = false := by
  unfold punctuation? at mark
  split at mark
  all_goals cases mark
  all_goals rfl

/-- A word is nonempty and free of boundaries, so a scan goes through it in one go. -/
theorem Spelled.word {lexeme : Lexeme} {own : Text} (spelled : Spelled lexeme own)
    (word : lexeme.isWord = true) : own ≠ [] ∧ Ordinary own ∧ word? own = some lexeme := by
  cases spelled with
  | mark mark =>
      rw [isWord_of_punctuation? mark] at word
      cases word
  | null =>
      exact ⟨List.cons_ne_nil _ _, .cons rfl (.cons rfl (.cons rfl (.cons rfl .nil))), rfl⟩
  | on =>
      exact ⟨List.cons_ne_nil _ _, .cons rfl (.cons rfl (.cons rfl (.cons rfl .nil))), rfl⟩
  | off =>
      exact ⟨List.cons_ne_nil _ _,
        .cons rfl (.cons rfl (.cons rfl (.cons rfl (.cons rfl .nil)))), rfl⟩
  | number grammar =>
      exact ⟨grammar.ne_nil, grammar.ordinary, word?_of_number grammar⟩
  | string _ =>
      cases word

theorem spelled_of_word? {own : Text} {lexeme : Lexeme} (word : word? own = some lexeme) :
    Spelled lexeme own := by
  unfold word? at word
  split at word
  · next same =>
      rw [same, ← Option.some.inj word]
      exact .null
  · split at word
    · next same =>
        rw [same, ← Option.some.inj word]
        exact .on
    · split at word
      · next same =>
          rw [same, ← Option.some.inj word]
          exact .off
      · split at word
        · next number =>
            rw [← Option.some.inj word]
            exact .number (isNumber_iff.mp number)
        · cases word

end Json
end TiledText
