import TiledText.Proofs.Json.Lexeme

/-!
# Scanning lexemes

The scanner finds the lexemes a text is written from, and there is at most one
sequence of them.

The scanner is followed through one part at a time: through the digits of a unit,
through the inside of a string, and up to the end of a word. Each law has two
directions. What the grammar allows takes the scanner to the end of the part, and
a scan that succeeds has such a part in front.
-/

namespace TiledText
namespace Json

namespace Scanner

def finish? (scanner : Scanner) (text : Text) : Option (List Lexeme) := do
  (← text.foldlM step? scanner).result?

theorem finish?_nil (scanner : Scanner) : scanner.finish? [] = scanner.result? :=
  rfl

theorem finish?_cons (scanner : Scanner) (c : Char) (rest : Text) :
    scanner.finish? (c :: rest) = (scanner.step? c).bind (finish? · rest) := by
  rw [finish?, List.foldlM_cons, Option.bind_eq_bind, Option.bind_eq_bind, Option.bind_assoc]
  rfl

theorem finish?_of_step? {scanner next : Scanner} {c : Char} (step : scanner.step? c = some next)
    (rest : Text) : scanner.finish? (c :: rest) = next.finish? rest := by
  rw [finish?_cons, step, Option.bind_some]

/-!
## Through a word
-/

theorem step?_ordinary {c : Char} (ordinary : isBoundary c = false) (sofar : Text)
    (done : List Lexeme) : step? ⟨.word sofar, done⟩ c = some ⟨.word (c :: sofar), done⟩ := by
  rw [isBoundary, Bool.or_eq_false_iff, Bool.or_eq_false_iff, beq_eq_false_iff_ne,
    Option.isSome_eq_false_iff, Option.isNone_iff_eq_none] at ordinary
  obtain ⟨⟨quote, blank⟩, mark⟩ := ordinary
  simp [step?, quote, blank, mark]

theorem finish?_ordinary {own : Text} (ordinary : Ordinary own) (sofar : Text)
    (done : List Lexeme) (rest : Text) :
    finish? ⟨.word sofar, done⟩ (own ++ rest) =
      finish? ⟨.word (own.reverse ++ sofar), done⟩ rest := by
  induction own generalizing sofar with
  | nil =>
      rfl
  | cons c more ih =>
      rw [List.cons_append,
        finish?_of_step? (step?_ordinary (ordinary c (List.mem_cons_self ..)) ..),
        ih fun d later => ordinary d (List.mem_cons_of_mem _ later), List.reverse_cons,
        List.append_assoc, List.singleton_append]

theorem step?_quote (sofar : Text) (done : List Lexeme) :
    step? ⟨.word sofar, done⟩ '"' = (close? sofar done).map (⟨.string [], ·⟩) :=
  rfl

theorem step?_blank {c : Char} (blank : isBlank c = true) (sofar : Text) (done : List Lexeme) :
    step? ⟨.word sofar, done⟩ c = (close? sofar done).map (⟨.word [], ·⟩) := by
  have noQuote : c ≠ '"' := by
    rintro rfl
    cases blank
  simp [step?, noQuote, blank]

theorem step?_mark {c : Char} {lexeme : Lexeme} (mark : punctuation? c = some lexeme)
    (sofar : Text) (done : List Lexeme) :
    step? ⟨.word sofar, done⟩ c =
      (close? sofar done).map fun closed => ⟨.word [], lexeme :: closed⟩ := by
  have noQuote : c ≠ '"' := by
    rintro rfl
    cases mark
  have noBlank : ¬isBlank c = true := by
    intro blank
    simp only [isBlank, Bool.or_eq_true, beq_iff_eq] at blank
    rcases blank with ((rfl | rfl) | rfl) | rfl
    all_goals cases mark
  simp [step?, noQuote, noBlank, mark]

/-- At a boundary the word is closed first, whatever the boundary is. -/
theorem exists_step?_boundary {c : Char} (boundary : isBoundary c = true) :
    ∃ next : List Lexeme → Scanner, ∀ sofar done,
      step? ⟨.word sofar, done⟩ c = (close? sofar done).map next := by
  rw [isBoundary, Bool.or_eq_true, Bool.or_eq_true] at boundary
  rcases boundary with (quote | blank) | mark
  · rw [beq_iff_eq.mp quote]
    exact ⟨_, step?_quote⟩
  · exact ⟨_, step?_blank blank⟩
  · obtain ⟨lexeme, mark⟩ := Option.isSome_iff_exists.mp mark
    exact ⟨_, step?_mark mark⟩

/-- Before a boundary a word is complete, and scanning goes on as if none were begun. -/
theorem finish?_of_boundary {text : Text} (boundary : ∀ c ∈ text.head?, isBoundary c = true)
    (sofar : Text) (done : List Lexeme) :
    finish? ⟨.word sofar, done⟩ text =
      (close? sofar done).bind fun closed => finish? ⟨.word [], closed⟩ text := by
  cases text with
  | nil =>
      show (close? sofar done).map List.reverse = _
      rw [Option.map_eq_bind]
      rfl
  | cons c rest =>
      obtain ⟨next, step⟩ := exists_step?_boundary (boundary c rfl)
      rw [finish?_cons, step, Option.bind_map]
      congr 1
      funext closed
      rw [finish?_cons, step]
      rfl

theorem close?_word {lexeme : Lexeme} {own : Text} (spelled : Spelled lexeme own)
    (word : lexeme.isWord = true) (done : List Lexeme) :
    close? own.reverse done = some (lexeme :: done) := by
  obtain ⟨nonempty, _, reads⟩ := spelled.word word
  unfold close?
  split
  · next same =>
      exact absurd (List.reverse_eq_nil_iff.mp same) nonempty
  · rw [List.reverse_reverse, reads, Option.map_some]

theorem finish?_word {lexeme : Lexeme} {own rest : Text} (spelled : Spelled lexeme own)
    (word : lexeme.isWord = true) (boundary : ∀ c ∈ rest.head?, isBoundary c = true)
    (done : List Lexeme) :
    finish? ⟨.word [], done⟩ (own ++ rest) = finish? ⟨.word [], lexeme :: done⟩ rest := by
  rw [finish?_ordinary (spelled.word word).2.1, List.append_nil, finish?_of_boundary boundary,
    close?_word spelled word, Option.bind_some]

/-!
## Through a string
-/

theorem mapM_hexDigit?_cons {c : Char} {rest : Text} {values : List Nat} :
    (c :: rest).mapM hexDigit? = some values ↔
      ∃ digit more, hexDigit? c = some digit ∧ rest.mapM hexDigit? = some more ∧
        values = digit :: more := by
  rw [List.mapM_cons]
  constructor
  · intro reads
    obtain ⟨digit, first, reads⟩ := Option.bind_eq_some_iff.mp reads
    obtain ⟨more, later, reads⟩ := Option.bind_eq_some_iff.mp reads
    exact ⟨digit, more, first, later, (Option.some.inj reads).symm⟩
  · rintro ⟨digit, more, first, later, rfl⟩
    rw [first, later]
    rfl

theorem step?_lastDigit {c : Char} {digit : Nat} (reads : hexDigit? c = some digit)
    (units : List UInt16) (value : Nat) (done : List Lexeme) :
    step? ⟨.hex units 0 value, done⟩ c =
      some ⟨.string (UInt16.ofNat (value * 16 + digit) :: units), done⟩ := by
  simp [step?, reads]

theorem step?_digit {c : Char} {digit : Nat} (reads : hexDigit? c = some digit)
    (units : List UInt16) (fewer value : Nat) (done : List Lexeme) :
    step? ⟨.hex units (fewer + 1) value, done⟩ c =
      some ⟨.hex units fewer (value * 16 + digit), done⟩ := by
  simp [step?, reads]

theorem finish?_hex {digits : Text} {values : List Nat} {missing : Nat}
    (count : digits.length = missing + 1) (reads : digits.mapM hexDigit? = some values)
    (units : List UInt16) (value : Nat) (done : List Lexeme) (rest : Text) :
    finish? ⟨.hex units missing value, done⟩ (digits ++ rest) =
      finish? ⟨.string (UInt16.ofNat (hexValue value values) :: units), done⟩ rest := by
  induction digits generalizing missing values value with
  | nil =>
      cases count
  | cons c after ih =>
      obtain ⟨digit, more, first, later, rfl⟩ := mapM_hexDigit?_cons.mp reads
      cases missing with
      | zero =>
          cases List.eq_nil_of_length_eq_zero (Nat.succ.inj count)
          cases later
          exact finish?_of_step? (step?_lastDigit first ..) rest
      | succ fewer =>
          rw [List.cons_append, finish?_of_step? (step?_digit first ..),
            ih (Nat.succ.inj count) later]
          rfl

theorem finish?_quoted {more : List UInt16} {inner : Text} (quoted : Quoted more inner)
    (units : List UInt16) (done : List Lexeme) (rest : Text) :
    finish? ⟨.string units, done⟩ (inner ++ rest) =
      finish? ⟨.string (more.reverse ++ units), done⟩ rest := by
  induction quoted generalizing units with
  | done =>
      rfl
  | @plain c more after noQuote noBackslash printable _ ih =>
      have step : step? ⟨.string units, done⟩ c =
          some ⟨.string ((utf16Units c).reverse ++ units), done⟩ := by
        simp [step?, noQuote, noBackslash, printable]
      rw [List.cons_append, finish?_of_step? step, ih, List.reverse_append, List.append_assoc]
  | @escape c unit more after letter _ ih =>
      have other : c ≠ 'u' := by
        rintro rfl
        cases letter
      have step : step? ⟨.escape units, done⟩ c = some ⟨.string (unit :: units), done⟩ := by
        simp [step?, other, letter]
      rw [List.cons_append, finish?_of_step? rfl, List.cons_append, finish?_of_step? step, ih,
        List.reverse_cons, List.append_assoc, List.singleton_append]
  | @hex digits values more after count reads _ ih =>
      rw [List.cons_append, finish?_of_step? rfl, List.cons_append, finish?_of_step? rfl,
        List.append_assoc, finish?_hex count reads, ih, List.reverse_cons, List.append_assoc,
        List.singleton_append]

/-!
## Back from a scan that succeeds

What a scan that succeeds has read is recovered from the front. The rest of the text is
shorter, and the scan of it succeeds as well.
-/

theorem exists_step {scanner : Scanner} {text : Text} {out : List Lexeme}
    (inside : scanner.result? = none) (scan : scanner.finish? text = some out) :
    ∃ c rest next, text = c :: rest ∧ scanner.step? c = some next ∧
      next.finish? rest = some out := by
  cases text with
  | nil =>
      rw [finish?_nil, inside] at scan
      cases scan
  | cons c rest =>
      rw [finish?_cons] at scan
      obtain ⟨next, step, scan⟩ := Option.bind_eq_some_iff.mp scan
      exact ⟨c, rest, next, rfl, step, scan⟩

theorem exists_hex {units : List UInt16} {missing value : Nat} {done out : List Lexeme}
    {text : Text} (scan : finish? ⟨.hex units missing value, done⟩ text = some out) :
    ∃ digits values rest, digits.length = missing + 1 ∧
      digits.mapM hexDigit? = some values ∧ text = digits ++ rest ∧
      finish? ⟨.string (UInt16.ofNat (hexValue value values) :: units), done⟩ rest = some out := by
  induction missing generalizing value text with
  | zero =>
      obtain ⟨c, rest, next, rfl, step, scan⟩ := exists_step rfl scan
      obtain ⟨digit, reads, rfl⟩ := Option.map_eq_some_iff.mp step
      exact ⟨[c], [digit], rest, rfl, mapM_hexDigit?_cons.mpr ⟨digit, [], reads, rfl, rfl⟩, rfl,
        scan⟩
  | succ fewer ih =>
      obtain ⟨c, rest, next, rfl, step, scan⟩ := exists_step rfl scan
      obtain ⟨digit, reads, rfl⟩ := Option.map_eq_some_iff.mp step
      obtain ⟨digits, values, after, count, later, whole, scan⟩ := ih scan
      exact ⟨c :: digits, digit :: values, after, congrArg (· + 1) count,
        mapM_hexDigit?_cons.mpr ⟨digit, values, reads, later, rfl⟩, congrArg (c :: ·) whole, scan⟩

theorem step?_string_cases {units : List UInt16} {done : List Lexeme} {c : Char} {next : Scanner}
    (step : step? ⟨.string units, done⟩ c = some next) :
    (c = '"' ∧ next = ⟨.word [], .string units.reverse :: done⟩) ∨
      (c = '\\' ∧ next = ⟨.escape units, done⟩) ∨
      (c ≠ '"' ∧ c ≠ '\\' ∧ ¬c < ' ' ∧
        next = ⟨.string ((utf16Units c).reverse ++ units), done⟩) := by
  simp only [step?] at step
  split at step
  · next quote =>
      exact .inl ⟨quote, (Option.some.inj step).symm⟩
  · next noQuote =>
      split at step
      · next backslash =>
          exact .inr (.inl ⟨backslash, (Option.some.inj step).symm⟩)
      · next noBackslash =>
          split at step
          · cases step
          · next printable =>
              exact .inr (.inr ⟨noQuote, noBackslash, printable, (Option.some.inj step).symm⟩)

theorem step?_escape_cases {units : List UInt16} {done : List Lexeme} {c : Char} {next : Scanner}
    (step : step? ⟨.escape units, done⟩ c = some next) :
    (c = 'u' ∧ next = ⟨.hex units 3 0, done⟩) ∨
      ∃ unit, escape? c = some unit ∧ next = ⟨.string (unit :: units), done⟩ := by
  simp only [step?] at step
  split at step
  · next letter =>
      exact .inl ⟨letter, (Option.some.inj step).symm⟩
  · obtain ⟨unit, letter, same⟩ := Option.map_eq_some_iff.mp step
    exact .inr ⟨unit, letter, same.symm⟩

theorem exists_quoted {units : List UInt16} {done out : List Lexeme} {text : Text}
    (scan : finish? ⟨.string units, done⟩ text = some out) :
    ∃ more inner rest, Quoted more inner ∧ text = inner ++ '"' :: rest ∧
      finish? ⟨.word [], .string (units.reverse ++ more) :: done⟩ rest = some out := by
  -- The induction is on the length, because an escape takes several characters.
  induction size : text.length using Nat.strongRecOn generalizing units text with
  | ind n ih =>
      obtain ⟨c, rest, next, rfl, step, scanRest⟩ := exists_step rfl scan
      rw [List.length_cons] at size
      rcases step?_string_cases step with
        ⟨rfl, rfl⟩ | ⟨rfl, rfl⟩ | ⟨quote, backslash, printable, rfl⟩
      · refine ⟨[], [], rest, .done, rfl, ?_⟩
        rw [List.append_nil]
        exact scanRest
      · obtain ⟨letter, after, next, rfl, stepLetter, scanAfter⟩ := exists_step rfl scanRest
        rw [List.length_cons] at size
        rcases step?_escape_cases stepLetter with ⟨rfl, rfl⟩ | ⟨unit, escape, rfl⟩
        · obtain ⟨digits, values, others, count, reads, rfl, scanOthers⟩ := exists_hex scanAfter
          rw [List.length_append] at size
          obtain ⟨more, inner, beyond, quoted, rfl, finished⟩ := ih _ (by omega) scanOthers rfl
          refine ⟨_ :: more, '\\' :: 'u' :: (digits ++ inner), beyond, .hex count reads quoted,
            by simp, ?_⟩
          rw [List.reverse_cons, List.append_assoc] at finished
          exact finished
        · obtain ⟨more, inner, beyond, quoted, rfl, finished⟩ := ih _ (by omega) scanAfter rfl
          refine ⟨unit :: more, '\\' :: letter :: inner, beyond, .escape escape quoted, rfl, ?_⟩
          rw [List.reverse_cons, List.append_assoc] at finished
          exact finished
      · obtain ⟨more, inner, beyond, quoted, rfl, finished⟩ := ih _ (by omega) scanRest rfl
        refine ⟨utf16Units c ++ more, c :: inner, beyond, .plain quote backslash printable quoted,
          rfl, ?_⟩
        rw [List.reverse_append, List.reverse_reverse, List.append_assoc] at finished
        exact finished

theorem close?_cases {sofar : Text} {done closed : List Lexeme}
    (close : close? sofar done = some closed) :
    (sofar = [] ∧ closed = done) ∨
      ∃ lexeme, Spelled lexeme sofar.reverse ∧ closed = lexeme :: done := by
  unfold close? at close
  split at close
  · exact .inl ⟨rfl, (Option.some.inj close).symm⟩
  · obtain ⟨lexeme, reads, rfl⟩ := Option.map_eq_some_iff.mp close
    exact .inr ⟨lexeme, spelled_of_word? reads, rfl⟩

/-!
## Whole texts
-/

theorem finish?_spelled {lexeme : Lexeme} {own rest : Text} (spelled : Spelled lexeme own)
    (apart : lexeme.isWord = true → ∀ c ∈ rest.head?, isBoundary c = true)
    (done : List Lexeme) :
    finish? ⟨.word [], done⟩ (own ++ rest) = finish? ⟨.word [], lexeme :: done⟩ rest := by
  cases word : lexeme.isWord with
  | true =>
      exact finish?_word spelled word (apart word) done
  | false =>
      cases spelled with
      | mark mark =>
          exact finish?_of_step? (step?_mark mark [] done) rest
      | @string units inner quoted =>
          rw [List.cons_append, finish?_of_step? (step?_quote [] done), List.append_assoc,
            finish?_quoted quoted, List.append_nil, List.singleton_append, finish?_of_step? rfl,
            List.reverse_reverse]
      | null =>
          cases word
      | on =>
          cases word
      | off =>
          cases word
      | number _ =>
          cases word

theorem finish?_written {lexemes : List Lexeme} {text : Text} (written : Written lexemes text)
    (done : List Lexeme) : finish? ⟨.word [], done⟩ text = some (done.reverse ++ lexemes) := by
  induction written generalizing done with
  | done =>
      rw [List.append_nil]
      rfl
  | blank blank _ ih =>
      rw [finish?_of_step? (step?_blank blank [] done), ih]
  | lexeme spelled apart _ ih =>
      rw [finish?_spelled spelled apart, ih, List.reverse_cons, List.append_assoc,
        List.singleton_append]

theorem exists_of_boundary {c : Char} (boundary : isBoundary c = true) {done out : List Lexeme}
    {rest : Text} (scan : finish? ⟨.word [], done⟩ (c :: rest) = some out) :
    (isBlank c = true ∧ finish? ⟨.word [], done⟩ rest = some out) ∨
      ∃ lexeme own after, Spelled lexeme own ∧ lexeme.isWord = false ∧ c :: rest = own ++ after ∧
        after.length ≤ rest.length ∧ finish? ⟨.word [], lexeme :: done⟩ after = some out := by
  rw [isBoundary, Bool.or_eq_true, Bool.or_eq_true] at boundary
  rcases boundary with (quote | blank) | mark
  · rw [beq_iff_eq] at quote
    subst quote
    rw [finish?_of_step? (step?_quote [] done)] at scan
    obtain ⟨units, inner, after, quoted, rfl, finished⟩ := exists_quoted scan
    refine .inr ⟨.string units, _, after, .string quoted, rfl, by simp, ?_, finished⟩
    rw [List.length_append, List.length_cons]
    omega
  · rw [finish?_of_step? (step?_blank blank [] done)] at scan
    exact .inl ⟨blank, scan⟩
  · obtain ⟨lexeme, mark⟩ := Option.isSome_iff_exists.mp mark
    rw [finish?_of_step? (step?_mark mark [] done)] at scan
    exact .inr
      ⟨lexeme, [c], rest, .mark mark, isWord_of_punctuation? mark, rfl, Nat.le_refl _, scan⟩

theorem exists_written_of_boundary {text : Text} {done out : List Lexeme}
    (boundary : ∀ c ∈ text.head?, isBoundary c = true)
    (scan : finish? ⟨.word [], done⟩ text = some out)
    (shorter : ∀ {before : List Lexeme} {rest : Text}, rest.length < text.length →
      finish? ⟨.word [], before⟩ rest = some out →
      ∃ lexemes, out = before.reverse ++ lexemes ∧ Written lexemes rest) :
    ∃ lexemes, out = done.reverse ++ lexemes ∧ Written lexemes text := by
  cases text with
  | nil =>
      refine ⟨[], ?_, .done⟩
      rw [List.append_nil]
      exact (Option.some.inj scan).symm
  | cons c rest =>
      rcases exists_of_boundary (boundary c rfl) scan with
        ⟨blank, scanRest⟩ | ⟨lexeme, own, after, spelled, noWord, whole, less, scanAfter⟩
      · obtain ⟨lexemes, same, written⟩ := shorter (Nat.lt_succ_self _) scanRest
        exact ⟨lexemes, same, .blank blank written⟩
      · obtain ⟨lexemes, same, written⟩ := shorter (Nat.lt_succ_of_le less) scanAfter
        refine ⟨lexeme :: lexemes, ?_, ?_⟩
        · rw [same, List.reverse_cons, List.append_assoc, List.singleton_append]
        · rw [whole]
          refine .lexeme spelled ?_ written
          intro word
          rw [noWord] at word
          cases word

theorem exists_written {sofar : Text} {done out : List Lexeme} {text : Text}
    (scan : finish? ⟨.word sofar, done⟩ text = some out) :
    ∃ lexemes, out = done.reverse ++ lexemes ∧ Written lexemes (sofar.reverse ++ text) := by
  induction size : text.length using Nat.strongRecOn generalizing sofar done text with
  | ind n ih =>
      subst size
      by_cases boundary : ∀ c ∈ text.head?, isBoundary c = true
      · rw [finish?_of_boundary boundary] at scan
        obtain ⟨closed, close, scanOn⟩ := Option.bind_eq_some_iff.mp scan
        obtain ⟨lexemes, rfl, written⟩ :=
          exists_written_of_boundary boundary scanOn fun less scanRest => ih _ less scanRest rfl
        rcases close?_cases close with ⟨rfl, rfl⟩ | ⟨lexeme, spelled, rfl⟩
        · exact ⟨lexemes, rfl, written⟩
        · refine ⟨lexeme :: lexemes, ?_, .lexeme spelled (fun _ => boundary) written⟩
          rw [List.reverse_cons, List.append_assoc, List.singleton_append]
      · cases text with
        | nil =>
            exact absurd (fun c impossible => nomatch impossible) boundary
        | cons c rest =>
            have ordinary : isBoundary c = false := by
              cases ends : isBoundary c with
              | false =>
                  rfl
              | true =>
                  exact absurd (fun d first => Option.some.inj first ▸ ends) boundary
            rw [finish?_of_step? (step?_ordinary ordinary ..)] at scan
            obtain ⟨lexemes, same, written⟩ := ih _ (Nat.lt_succ_self rest.length) scan rfl
            rw [List.reverse_cons, List.append_assoc] at written
            exact ⟨lexemes, same, written⟩

end Scanner

theorem lexemes?_eq_some_iff {text : Text} {lexemes : List Lexeme} :
    lexemes? text = some lexemes ↔ Written lexemes text := by
  constructor
  · intro scan
    obtain ⟨_, rfl, written⟩ :=
      Scanner.exists_written (show Scanner.start.finish? text = some lexemes from scan)
    exact written
  · intro written
    exact Scanner.finish?_written written []

end Json
end TiledText
