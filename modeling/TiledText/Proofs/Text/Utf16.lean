import TiledText.Text.Utf16

/-!
# Text and its code units

Reading code units undoes writing them. A sequence of code units can be read
exactly if some text is written that way, and then as that text only. The
characters below `0x10000` leave a gap where the surrogates are, so no unit of
such a character can be taken for one of a pair.
-/

namespace TiledText

/-!
## One character
-/

theorem toNat_ofNat_of_isValidChar {n : Nat} (valid : n.isValidChar) :
    (Char.ofNat n).toNat = n := by
  rw [Char.ofNat, dif_pos valid]
  rfl

theorem utf16Units_of_lt {c : Char} (narrow : c.toNat < 0x10000) :
    utf16Units c = [UInt16.ofNat c.toNat] :=
  if_pos narrow

theorem utf16Units_of_le {c : Char} (wide : 0x10000 ≤ c.toNat) :
    utf16Units c =
      [UInt16.ofNat (0xD800 + (c.toNat - 0x10000) / 0x400),
        UInt16.ofNat (0xDC00 + (c.toNat - 0x10000) % 0x400)] :=
  if_neg (Nat.not_lt.mpr wide)

namespace Text

theorem isHighSurrogate_iff {unit : UInt16} :
    isHighSurrogate unit = true ↔ 0xD800 ≤ unit.toNat ∧ unit.toNat < 0xDC00 := by
  rw [isHighSurrogate, Bool.and_eq_true, decide_eq_true_iff, decide_eq_true_iff,
    UInt16.le_iff_toNat_le, UInt16.lt_iff_toNat_lt]
  rfl

theorem isLowSurrogate_iff {unit : UInt16} :
    isLowSurrogate unit = true ↔ 0xDC00 ≤ unit.toNat ∧ unit.toNat < 0xE000 := by
  rw [isLowSurrogate, Bool.and_eq_true, decide_eq_true_iff, decide_eq_true_iff,
    UInt16.le_iff_toNat_le, UInt16.lt_iff_toNat_lt]
  rfl

theorem ofUtf16?_cons_plain {unit : UInt16} (high : ¬isHighSurrogate unit = true)
    (low : ¬isLowSurrogate unit = true) (rest : List UInt16) :
    ofUtf16? (unit :: rest) = (ofUtf16? rest).map (Char.ofNat unit.toNat :: ·) := by
  rw [ofUtf16?.eq_def]
  simp only [if_neg high, if_neg low]

theorem ofUtf16?_cons_pair {high low : UInt16} (isHigh : isHighSurrogate high = true)
    (isLow : isLowSurrogate low = true) (rest : List UInt16) :
    ofUtf16? (high :: low :: rest) = (ofUtf16? rest).map (ofSurrogates high low :: ·) := by
  rw [ofUtf16?.eq_def]
  simp only [if_pos isHigh, if_pos isLow]

theorem ofUtf16?_utf16Units (c : Char) (rest : List UInt16) :
    ofUtf16? (utf16Units c ++ rest) = (ofUtf16? rest).map (c :: ·) := by
  have valid : c.toNat.isValidChar := c.valid
  unfold Nat.isValidChar at valid
  by_cases narrow : c.toNat < 0x10000
  · have unit : (UInt16.ofNat c.toNat).toNat = c.toNat := UInt16.toNat_ofNat_of_lt narrow
    have high : ¬isHighSurrogate (UInt16.ofNat c.toNat) = true := by
      rw [isHighSurrogate_iff, unit]
      omega
    have low : ¬isLowSurrogate (UInt16.ofNat c.toNat) = true := by
      rw [isLowSurrogate_iff, unit]
      omega
    rw [utf16Units_of_lt narrow, List.singleton_append, ofUtf16?_cons_plain high low, unit,
      Char.ofNat_toNat]
  · have wide := Nat.not_lt.mp narrow
    rw [utf16Units_of_le wide]
    generalize highIs : UInt16.ofNat (0xD800 + (c.toNat - 0x10000) / 0x400) = high
    generalize lowIs : UInt16.ofNat (0xDC00 + (c.toNat - 0x10000) % 0x400) = low
    have first : high.toNat = 0xD800 + (c.toNat - 0x10000) / 0x400 := by
      rw [← highIs]
      exact UInt16.toNat_ofNat_of_lt (by simp only [UInt16.size]; omega)
    have second : low.toNat = 0xDC00 + (c.toNat - 0x10000) % 0x400 := by
      rw [← lowIs]
      exact UInt16.toNat_ofNat_of_lt (by simp only [UInt16.size]; omega)
    have isHigh : isHighSurrogate high = true := by
      rw [isHighSurrogate_iff, first]
      omega
    have isLow : isLowSurrogate low = true := by
      rw [isLowSurrogate_iff, second]
      omega
    have point : 0x10000 + (high.toNat - 0xD800) * 0x400 + (low.toNat - 0xDC00) = c.toNat := by
      omega
    rw [List.cons_append, List.singleton_append, ofUtf16?_cons_pair isHigh isLow, ofSurrogates,
      point, Char.ofNat_toNat]

theorem utf16Units_ofNat {unit : UInt16} (high : ¬isHighSurrogate unit = true)
    (low : ¬isLowSurrogate unit = true) : utf16Units (Char.ofNat unit.toNat) = [unit] := by
  rw [isHighSurrogate_iff] at high
  rw [isLowSurrogate_iff] at low
  have bound := unit.toNat_lt
  have same : (Char.ofNat unit.toNat).toNat = unit.toNat :=
    toNat_ofNat_of_isValidChar (by unfold Nat.isValidChar; omega)
  rw [utf16Units_of_lt (by omega), same, UInt16.ofNat_toNat]

theorem utf16Units_ofSurrogates {high low : UInt16} (isHigh : isHighSurrogate high = true)
    (isLow : isLowSurrogate low = true) : utf16Units (ofSurrogates high low) = [high, low] := by
  rw [isHighSurrogate_iff] at isHigh
  rw [isLowSurrogate_iff] at isLow
  have same : (ofSurrogates high low).toNat =
      0x10000 + (high.toNat - 0xD800) * 0x400 + (low.toNat - 0xDC00) :=
    toNat_ofNat_of_isValidChar (by unfold Nat.isValidChar; omega)
  have first : 0xD800 + ((ofSurrogates high low).toNat - 0x10000) / 0x400 = high.toNat := by
    omega
  have second : 0xDC00 + ((ofSurrogates high low).toNat - 0x10000) % 0x400 = low.toNat := by
    omega
  rw [utf16Units_of_le (by omega), first, second, UInt16.ofNat_toNat, UInt16.ofNat_toNat]

/-!
## Texts
-/

theorem utf16_cons (c : Char) (rest : Text) : utf16 (c :: rest) = utf16Units c ++ utf16 rest :=
  List.flatMap_cons ..

theorem utf16_append (text more : Text) : (text ++ more).utf16 = text.utf16 ++ more.utf16 :=
  List.flatMap_append

theorem ofUtf16?_utf16 (text : Text) : ofUtf16? text.utf16 = some text := by
  induction text with
  | nil =>
      rfl
  | cons c rest ih =>
      rw [utf16_cons, ofUtf16?_utf16Units, ih, Option.map_some]

theorem eq_utf16_of_ofUtf16? {units : List UInt16} {text : Text}
    (read : ofUtf16? units = some text) : units = text.utf16 := by
  fun_induction ofUtf16? units generalizing text with
  | case1 =>
      rw [← Option.some.inj read]
      rfl
  | case2 =>
      cases read
  | case3 high isHigh low more isLow ih =>
      obtain ⟨after, readMore, rfl⟩ := Option.map_eq_some_iff.mp read
      rw [utf16_cons, utf16Units_ofSurrogates isHigh isLow, ← ih readMore]
      rfl
  | case4 =>
      cases read
  | case5 =>
      cases read
  | case6 unit rest notHigh notLow ih =>
      obtain ⟨after, readRest, rfl⟩ := Option.map_eq_some_iff.mp read
      rw [utf16_cons, utf16Units_ofNat notHigh notLow, ← ih readRest]
      rfl

theorem ofUtf16?_eq_some_iff {units : List UInt16} {text : Text} :
    ofUtf16? units = some text ↔ units = text.utf16 := by
  constructor
  · intro read
    exact eq_utf16_of_ofUtf16? read
  · intro written
    rw [written, ofUtf16?_utf16]

theorem utf16_inj {text other : Text} : text.utf16 = other.utf16 ↔ text = other := by
  constructor
  · intro same
    exact Option.some.inj ((ofUtf16?_utf16 text).symm.trans (same ▸ ofUtf16?_utf16 other))
  · intro same
    rw [same]

end Text

end TiledText
