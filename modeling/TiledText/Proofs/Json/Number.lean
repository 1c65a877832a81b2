import TiledText.Json.Grammar

/-!
# Reading numbers

The functions that pass over the parts of a number each take as much as they can.
That is never too much: what follows a part does not begin with a digit, and the
sign and the two marks are no digits.
-/

namespace TiledText
namespace Json

/-!
## What a part may be followed by
-/

def NoDigitFirst (text : Text) : Prop :=
  ∀ c ∈ text.head?, c.isDigit = false

theorem Exponent.noDigitFirst {exponent : Text} (grammar : Exponent exponent) :
    NoDigitFirst exponent := by
  cases grammar with
  | none =>
      exact fun c first => nomatch first
  | mark letter sign digits =>
      intro c first
      rw [← Option.some.inj first]
      rcases letter with rfl | rfl
      · rfl
      · rfl

theorem Fraction.noDigitFirst {fraction exponent : Text} (grammar : Fraction fraction)
    (after : Exponent exponent) : NoDigitFirst (fraction ++ exponent) := by
  cases grammar with
  | none =>
      exact after.noDigitFirst
  | point digits =>
      intro c first
      rw [← Option.some.inj first]
      rfl

theorem Digits.head {digits : Text} (grammar : Digits digits) (more : Text) :
    ∃ c rest, digits ++ more = c :: rest ∧ c.isDigit = true := by
  cases digits with
  | nil =>
      exact absurd rfl grammar.nonempty
  | cons c rest =>
      exact ⟨c, rest ++ more, rfl, grammar.digit c (List.mem_cons_self ..)⟩

theorem Integer.head {integer : Text} (grammar : Integer integer) (more : Text) :
    ∃ c rest, integer ++ more = c :: rest ∧ c.isDigit = true := by
  cases grammar with
  | zero =>
      exact ⟨'0', more, rfl, rfl⟩
  | digits digits _ =>
      exact digits.head more

theorem afterMinus_of_digit {c : Char} (digit : c.isDigit = true) (rest : Text) :
    afterMinus (c :: rest) = c :: rest := by
  unfold afterMinus
  split
  · next same =>
      cases same
      exact absurd digit (by decide)
  · rfl

theorem afterSign_of_digit {c : Char} (digit : c.isDigit = true) (rest : Text) :
    afterSign (c :: rest) = c :: rest := by
  unfold afterSign
  split
  · next same =>
      cases same
      exact absurd digit (by decide)
  · next same =>
      cases same
      exact absurd digit (by decide)
  · rfl

/-!
## Passing over a part

A part of a number is passed over as a whole if nothing follows that could belong to it.
-/

theorem afterDigits?_append {digits rest : Text} (grammar : Digits digits)
    (apart : NoDigitFirst rest) : afterDigits? (digits ++ rest) = some rest := by
  cases digits with
  | nil =>
      exact absurd rfl grammar.nonempty
  | cons c more =>
      have stop : rest.dropWhile Char.isDigit = rest := by
        cases rest with
        | nil =>
            rfl
        | cons next _ =>
            rw [List.dropWhile_cons_of_neg (by rw [apart next rfl]; exact Bool.false_ne_true)]
      rw [List.cons_append, afterDigits?, if_pos (grammar.digit c (List.mem_cons_self ..)),
        List.dropWhile_append_of_pos fun d later => grammar.digit d (List.mem_cons_of_mem _ later),
        stop]

theorem exists_digits {text rest : Text} (passed : afterDigits? text = some rest) :
    ∃ digits, Digits digits ∧ text = digits ++ rest := by
  cases text with
  | nil =>
      cases passed
  | cons c more =>
      rw [afterDigits?] at passed
      split at passed
      · next digit =>
          rw [← Option.some.inj passed]
          refine ⟨c :: more.takeWhile Char.isDigit, ⟨by simp, ?_⟩, ?_⟩
          · intro d member
            rcases List.mem_cons.mp member with rfl | later
            · exact digit
            · exact List.all_eq_true.mp List.all_takeWhile d later
          · rw [List.cons_append, List.takeWhile_append_dropWhile]
      · cases passed

theorem afterInteger?_append {integer rest : Text} (grammar : Integer integer)
    (apart : NoDigitFirst rest) : afterInteger? (integer ++ rest) = some rest := by
  cases grammar with
  | zero =>
      rfl
  | digits digits first =>
      unfold afterInteger?
      split
      · next more same =>
          cases integer with
          | nil =>
              exact absurd rfl digits.nonempty
          | cons c _ =>
              cases same
              exact absurd rfl first
      · exact afterDigits?_append digits apart

theorem exists_integer {text rest : Text} (passed : afterInteger? text = some rest) :
    ∃ integer, Integer integer ∧ text = integer ++ rest := by
  unfold afterInteger? at passed
  split at passed
  · next more =>
      exact ⟨['0'], .zero, by rw [← Option.some.inj passed]; rfl⟩
  · next noZero =>
      obtain ⟨digits, grammar, rfl⟩ := exists_digits passed
      refine ⟨digits, .digits grammar ?_, rfl⟩
      intro zero
      cases digits with
      | nil =>
          cases zero
      | cons c more =>
          cases zero
          exact noZero (more ++ rest) rfl

theorem afterFraction?_append {fraction exponent : Text} (grammar : Fraction fraction)
    (after : Exponent exponent) : afterFraction? (fraction ++ exponent) = some exponent := by
  cases grammar with
  | none =>
      cases after with
      | none =>
          rfl
      | mark letter _ _ =>
          rcases letter with rfl | rfl
          · rfl
          · rfl
  | point digits =>
      exact afterDigits?_append digits after.noDigitFirst

theorem exists_fraction {text rest : Text} (passed : afterFraction? text = some rest) :
    ∃ fraction, Fraction fraction ∧ text = fraction ++ rest := by
  unfold afterFraction? at passed
  split at passed
  · obtain ⟨digits, grammar, rfl⟩ := exists_digits passed
    exact ⟨'.' :: digits, .point grammar, rfl⟩
  · exact ⟨[], .none, Option.some.inj passed⟩

theorem afterSign_append {sign digits : Text} (letter : sign = [] ∨ sign = ['+'] ∨ sign = ['-'])
    (grammar : Digits digits) : afterSign (sign ++ digits) = digits := by
  rcases letter with rfl | rfl | rfl
  · obtain ⟨c, rest, same, digit⟩ := grammar.head []
    rw [List.append_nil] at same
    rw [List.nil_append, same, afterSign_of_digit digit]
  · rfl
  · rfl

theorem exists_sign (text : Text) :
    ∃ sign, (sign = [] ∨ sign = ['+'] ∨ sign = ['-']) ∧ text = sign ++ afterSign text := by
  unfold afterSign
  split
  · exact ⟨['-'], .inr (.inr rfl), rfl⟩
  · exact ⟨['+'], .inr (.inl rfl), rfl⟩
  · exact ⟨[], .inl rfl, rfl⟩

theorem afterExponent?_eq_some_nil {exponent : Text} (grammar : Exponent exponent) :
    afterExponent? exponent = some [] := by
  cases grammar with
  | none =>
      rfl
  | @mark c sign digits letter signed grammar =>
      have passed : afterDigits? (afterSign (sign ++ digits)) = some [] := by
        rw [afterSign_append signed grammar, ← List.append_nil digits]
        exact afterDigits?_append grammar fun c first => nomatch first
      rcases letter with rfl | rfl
      · exact passed
      · exact passed

theorem exists_marked {text rest : Text} {c : Char} (letter : c = 'e' ∨ c = 'E')
    (passed : afterDigits? (afterSign text) = some rest) :
    ∃ exponent, Exponent exponent ∧ c :: text = exponent ++ rest := by
  obtain ⟨sign, signed, whole⟩ := exists_sign text
  obtain ⟨digits, grammar, after⟩ := exists_digits passed
  refine ⟨c :: (sign ++ digits), .mark letter signed grammar, ?_⟩
  rw [whole, after, List.cons_append, List.append_assoc]

theorem exists_exponent {text rest : Text} (passed : afterExponent? text = some rest) :
    ∃ exponent, Exponent exponent ∧ text = exponent ++ rest := by
  unfold afterExponent? at passed
  split at passed
  · exact exists_marked (.inl rfl) passed
  · exact exists_marked (.inr rfl) passed
  · exact ⟨[], .none, Option.some.inj passed⟩

theorem exists_minus (text : Text) :
    ∃ minus, (minus = [] ∨ minus = ['-']) ∧ text = minus ++ afterMinus text := by
  unfold afterMinus
  split
  · exact ⟨['-'], .inr rfl, rfl⟩
  · exact ⟨[], .inl rfl, rfl⟩

/-!
## Numbers
-/

theorem afterMinus_append {minus integer more : Text} (letter : minus = [] ∨ minus = ['-'])
    (grammar : Integer integer) : afterMinus (minus ++ (integer ++ more)) = integer ++ more := by
  rcases letter with rfl | rfl
  · obtain ⟨c, rest, same, digit⟩ := grammar.head more
    rw [List.nil_append, same, afterMinus_of_digit digit]
  · rfl

theorem isNumber_iff {text : Text} : isNumber text = true ↔ Number text := by
  rw [isNumber, beq_iff_eq]
  constructor
  · intro passed
    obtain ⟨afterTwo, passedTwo, passedExponent⟩ := Option.bind_eq_some_iff.mp passed
    obtain ⟨afterOne, passedInteger, passedFraction⟩ := Option.bind_eq_some_iff.mp passedTwo
    obtain ⟨minus, letter, whole⟩ := exists_minus text
    obtain ⟨integer, integerGrammar, first⟩ := exists_integer passedInteger
    obtain ⟨fraction, fractionGrammar, second⟩ := exists_fraction passedFraction
    obtain ⟨exponent, exponentGrammar, third⟩ := exists_exponent passedExponent
    rw [List.append_nil] at third
    rw [whole, first, second, third]
    exact .parts letter integerGrammar fractionGrammar exponentGrammar
  · rintro ⟨letter, integer, fraction, exponent⟩
    rw [afterMinus_append letter integer,
      afterInteger?_append integer (fraction.noDigitFirst exponent), Option.bind_eq_bind,
      Option.bind_some, afterFraction?_append fraction exponent, Option.bind_some,
      afterExponent?_eq_some_nil exponent]

end Json
end TiledText
