import TiledText.Text.Basic

/-!
# UTF-16

Offsets within a line count UTF-16 code units. A character below `0x10000` is
one unit. Any other is two: a high surrogate and a low surrogate, which carry
ten bits each. The width of a text is the number of its code units.
-/

namespace TiledText

/-!
## Code units
-/

def utf16Units (c : Char) : List UInt16 :=
  if c.toNat < 0x10000 then
    [UInt16.ofNat c.toNat]
  else
    [UInt16.ofNat (0xD800 + (c.toNat - 0x10000) / 0x400),
      UInt16.ofNat (0xDC00 + (c.toNat - 0x10000) % 0x400)]

def utf16Width (c : Char) : Nat :=
  if c.toNat < 0x10000 then 1 else 2

theorem length_utf16Units (c : Char) : (utf16Units c).length = utf16Width c := by
  unfold utf16Units utf16Width
  split
  · rfl
  · rfl

namespace Text

def utf16 (text : Text) : List UInt16 :=
  text.flatMap utf16Units

def width (text : Text) : Nat :=
  text.foldr (fun c units => utf16Width c + units) 0

theorem width_nil : width [] = 0 :=
  rfl

theorem width_cons (c : Char) (rest : Text) : width (c :: rest) = utf16Width c + width rest :=
  rfl

theorem length_utf16 (text : Text) : text.utf16.length = text.width := by
  induction text with
  | nil =>
      rfl
  | cons c rest ih =>
      rw [utf16, List.flatMap_cons, List.length_append, length_utf16Units, width_cons, ← ih, utf16]

theorem width_append (text more : Text) : (text ++ more).width = text.width + more.width := by
  induction text with
  | nil =>
      rw [List.nil_append, width_nil, Nat.zero_add]
  | cons c rest ih =>
      rw [List.cons_append, width_cons, width_cons, ih, Nat.add_assoc]

/-!
## Reading code units

A sequence of code units need not come from text. A high surrogate may lack its
partner, and a low one may stand alone.
-/

def isHighSurrogate (unit : UInt16) : Bool :=
  0xD800 ≤ unit && unit < 0xDC00

def isLowSurrogate (unit : UInt16) : Bool :=
  0xDC00 ≤ unit && unit < 0xE000

/-- The character above `0xFFFF` that two surrogates stand for. -/
def ofSurrogates (high low : UInt16) : Char :=
  Char.ofNat (0x10000 + (high.toNat - 0xD800) * 0x400 + (low.toNat - 0xDC00))

/-- The text that the code units stand for, if every surrogate has its partner. -/
def ofUtf16? : List UInt16 → Option Text
  | [] => some []
  | unit :: rest =>
      if isHighSurrogate unit then
        match rest with
        | [] => none
        | low :: more =>
            if isLowSurrogate low then
              (ofUtf16? more).map (ofSurrogates unit low :: ·)
            else
              none
      else if isLowSurrogate unit then
        none
      else
        (ofUtf16? rest).map (Char.ofNat unit.toNat :: ·)

end Text

end TiledText
