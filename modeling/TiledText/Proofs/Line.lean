import TiledText.Proofs.Caret
import TiledText.Proofs.Tiling.Tags

/-!
# Sound lines

A line is sound when its text has no newline and its tiling, if it is known,
covers exactly the code units of its text. A known line is then shorter than an
offset can hold, so columns in it are never clamped.
-/

namespace TiledText

attribute [ext] Line

theorem toNat_ofNatClamp {n : Nat} (fits : n < UInt32.size) :
    (UInt32.ofNatClamp n).toNat = n := by
  unfold UInt32.ofNatClamp
  rw [dif_pos fits]
  rfl

namespace Text

theorem width_take_add_width_drop (text : Text) (n : Nat) :
    width (text.take n) + width (text.drop n) = text.width := by
  rw [← width_append, List.take_append_drop]

theorem width_take_le (text : Text) {m n : Nat} (le : m ≤ n) :
    width (text.take m) ≤ width (text.take n) := by
  have parts := width_take_add_width_drop (text.take n) m
  rw [List.take_take, Nat.min_eq_left le] at parts
  exact Nat.le.intro parts

end Text

namespace Line

structure Sound (line : Line) : Prop where
  unbroken : '\n' ∉ line.text
  covered : ∀ t, line.state = some t → t.length.toNat = line.text.width

theorem sound_fresh {text : Text} (unbroken : '\n' ∉ text) : (fresh text).Sound where
  unbroken := unbroken
  covered := by
    intro t known
    cases known

theorem state_settle_eq_some_iff {text : Text} {state : LineState} {t : Tiling} :
    (settle text state).state = some t ↔ state = some t ∧ t.length.toNat = text.width := by
  simp [settle, covers, Option.filter_eq_some_iff]

theorem sound_settle {text : Text} (unbroken : '\n' ∉ text) (state : LineState) :
    (settle text state).Sound where
  unbroken := unbroken
  covered := by
    intro t known
    exact (state_settle_eq_some_iff.mp known).2

theorem Sound.length_tags {line : Line} (sound : line.Sound) {t : Tiling}
    (known : line.state = some t) : t.tags.length = line.text.width := by
  rw [Tiling.length_tags, sound.covered t known]

theorem Sound.width_lt {line : Line} (sound : line.Sound) {t : Tiling}
    (known : line.state = some t) : line.text.width < UInt32.size := by
  rw [← sound.covered t known]
  exact t.length.toNat_lt_size

end Line

namespace Caret

theorem width_before_add_width_after (caret : Caret) :
    caret.before.width + caret.after.width = caret.line.text.width :=
  Text.width_take_add_width_drop _ _

theorem toNat_column {caret : Caret} (sound : caret.line.Sound) {t : Tiling}
    (known : caret.line.state = some t) :
    caret.position.column.toNat = caret.before.width := by
  have short := sound.width_lt known
  have parts := caret.width_before_add_width_after
  exact toNat_ofNatClamp (by omega)

theorem column_le_length {caret : Caret} (sound : caret.line.Sound) {t : Tiling}
    (known : caret.line.state = some t) : caret.position.column ≤ t.length := by
  have parts := caret.width_before_add_width_after
  rw [UInt32.le_iff_toNat_le, toNat_column sound known, sound.covered t known]
  omega

end Caret

end TiledText
