import Mathlib.Data.List.DropRight
import TiledText.Proofs.Storage.Lines
import TiledText.Proofs.Text.Utf16

/-!
# Lines and columns

An offset counts characters from the beginning of the text. The line that it is on counts
the newlines before it, and its column counts the code units since the last of these. Both
are defined here by the text alone.

A document finds them at a caret, and a rope finds them as a difference of two counts of code
units. Only the column that they report is clamped. The two numbers keep the order of the
offsets, and a column never lies between the two surrogates of a character.
-/

namespace TiledText

namespace Text

/-!
## Counting up to an offset
-/

/-- What follows the last newline of a text, or all of it. -/
def sinceNewline (text : Text) : Text :=
  text.rtakeWhile (· ≠ '\n')

def lineAt (text : Text) (offset : Nat) : Nat :=
  (text.take offset).count '\n'

/-- The number of code units between the beginning of that line and the offset. -/
def columnAt (text : Text) (offset : Nat) : Nat :=
  (sinceNewline (text.take offset)).utf16.length

def Precedes (text : Text) (offset later : Nat) : Prop :=
  text.lineAt offset < text.lineAt later ∨
    text.lineAt offset = text.lineAt later ∧ text.columnAt offset < text.columnAt later

theorem sinceNewline_append {front back : Text} (unbroken : '\n' ∉ back) :
    (front ++ back).sinceNewline = front.sinceNewline ++ back := by
  have ordinary : ∀ c ∈ back.reverse, (decide (c ≠ '\n')) = true := by
    intro c member
    rw [decide_eq_true_iff]
    intro newline
    rw [newline, List.mem_reverse] at member
    exact unbroken member
  rw [sinceNewline, List.rtakeWhile, List.reverse_append,
    List.takeWhile_append_of_pos ordinary, List.reverse_append, List.reverse_reverse]
  rfl

theorem sinceNewline_newline (front : Text) : (front ++ ['\n']).sinceNewline = [] :=
  List.rtakeWhile_concat_neg _ _ _ (by simp)

theorem length_utf16_pos {text : Text} (nonempty : text ≠ []) : 0 < text.utf16.length := by
  rw [length_utf16]
  exact Nat.pos_of_ne_zero fun zero => nonempty (eq_nil_of_width_eq_zero zero)

theorem precedes_of_lt {text : Text} {offset later : Nat} (lt : offset < later)
    (inside : later ≤ text.length) : text.Precedes offset later := by
  obtain ⟨between, passed⟩ : ∃ between, between = (text.drop offset).take (later - offset) :=
    ⟨_, rfl⟩
  have further : text.take later = text.take offset ++ between := by
    rw [passed, ← List.take_add, Nat.add_sub_cancel' (Nat.le_of_lt lt)]
  have nonempty : between ≠ [] := by
    apply List.ne_nil_of_length_pos
    rw [passed, List.length_take, List.length_drop]
    omega
  unfold Precedes lineAt columnAt
  rw [further, List.count_append]
  -- A newline in between leads to a later line, and without one the column grows.
  by_cases newline : '\n' ∈ between
  · have counts := List.count_pos_iff.mpr newline
    exact Or.inl (by omega)
  · have same := List.count_eq_zero.mpr newline
    have wide := length_utf16_pos nonempty
    rw [sinceNewline_append newline, utf16_append, List.length_append]
    exact Or.inr ⟨by omega, by omega⟩

/-!
## Surrogates at a boundary
-/

/-- A high surrogate ends right before the offset, and its partner begins there. -/
def DividesPair (units : List UInt16) (offset : Nat) : Prop :=
  ∃ high low, (units.take offset).getLast? = some high ∧
    (units.drop offset).head? = some low ∧
      isHighSurrogate high = true ∧ isLowSurrogate low = true

/-- No text begins with a low surrogate, since such units could not be read. -/
theorem not_isLowSurrogate_of_head? {text : Text} {unit : UInt16}
    (first : text.utf16.head? = some unit) : ¬ isLowSurrogate unit = true := by
  intro low
  rcases List.head?_eq_some_iff.mp first with ⟨rest, shape⟩
  have read := ofUtf16?_utf16 text
  have high : ¬ isHighSurrogate unit = true := by
    rw [isLowSurrogate_iff] at low
    rw [isHighSurrogate_iff]
    omega
  rw [shape, ofUtf16?.eq_def] at read
  simp only [if_neg high, if_pos low] at read
  cases read

theorem not_dividesPair (before after : Text) :
    ¬ DividesPair (before ++ after).utf16 before.utf16.length := by
  rintro ⟨_, low, _, first, _, isLow⟩
  rw [utf16_append, List.drop_left] at first
  exact not_isLowSurrogate_of_head? first isLow

end Text

theorem toNat_ofNatClamp_eq_min (n : Nat) :
    (UInt32.ofNatClamp n).toNat = min n (UInt32.size - 1) := by
  by_cases fits : n < UInt32.size
  · rw [toNat_ofNatClamp fits, Nat.min_eq_left (Nat.le_sub_one_of_lt fits)]
  · rw [UInt32.ofNatClamp, dif_neg fits,
      Nat.min_eq_right (Nat.le_trans (Nat.sub_le _ _) (Nat.not_lt.mp fits))]
    rfl

/-!
## Counting up to a caret

The line of a caret counts the newlines before it, and above that line every line ends with
one.
-/

namespace Caret

theorem sinceNewline_above (above : List Line) :
    Text.sinceNewline (above.flatMap (·.text ++ ['\n'])) = [] := by
  rcases List.eq_nil_or_concat' above with rfl | ⟨more, last, rfl⟩
  · rfl
  · rw [List.flatMap_append, List.flatMap_singleton, ← List.append_assoc]
    exact Text.sinceNewline_newline _

theorem sinceNewline_prior {caret : Caret} (line : caret.line.Sound) :
    caret.prior.sinceNewline = caret.before := by
  have unbroken : '\n' ∉ caret.before := fun member =>
    line.unbroken (List.mem_of_mem_take member)
  rw [prior, Text.sinceNewline_append unbroken, sinceNewline_above, List.nil_append]

end Caret

namespace Document

variable {d : Document} {offset : Nat} {caret : Caret}

theorem Sound.lineAt_eq (sound : d.Sound) (resolved : caret? d.lines offset = some caret) :
    d.text.lineAt offset = caret.above.length :=
  sound.count_take resolved

theorem Sound.columnAt_eq (sound : d.Sound) (resolved : caret? d.lines offset = some caret) :
    d.text.columnAt offset = caret.before.utf16.length := by
  rw [Text.columnAt, text, ← prior_eq_take resolved,
    Caret.sinceNewline_prior (sound.line _ (line_mem_of_caret? resolved))]

theorem Sound.position?_eq (sound : d.Sound) (resolved : caret? d.lines offset = some caret) :
    d.position? offset =
      some ⟨d.text.lineAt offset, UInt32.ofNatClamp (d.text.columnAt offset)⟩ := by
  rw [position?, resolved, sound.lineAt_eq resolved, sound.columnAt_eq resolved,
    Text.length_utf16]
  rfl

theorem Sound.getElem?_lineAt (sound : d.Sound) (resolved : caret? d.lines offset = some caret) :
    d.lines[d.text.lineAt offset]? = some caret.line := by
  rcases caret?_eq_some_iff.mp resolved with ⟨shape, _, _⟩
  rw [sound.lineAt_eq resolved, shape, List.getElem?_append_right (Nat.le_refl _), Nat.sub_self]
  rfl

/-!
## Positions of offsets

Every offset up to the end of a reachable document has a position. Its line is the number of
newlines before the offset, and its column is the number of code units since the last of them,
as far as a column goes. That line exists, and the column lies on it and between two of its
characters. A later offset has a later position. Storage that holds the document finds the
same position without a fault.
-/

structure PositionedAt (d : Document) (offset : Nat) (position : Position) : Prop where
  found : d.position? offset = some position
  line : position.line = d.text.lineAt offset
  column : position.column.toNat = min (d.text.columnAt offset) (UInt32.size - 1)
  bound : position.line < d.lineCount
  within : ∃ part, d.lineText? position.line = some part ∧
    d.lineWidth? position.line = some part.utf16.length ∧
    d.text.columnAt offset ≤ part.utf16.length ∧
    ¬ Text.DividesPair part.utf16 (d.text.columnAt offset)
  order : ∀ later, offset < later → later ≤ d.length → d.text.Precedes offset later
  stored : ∀ {R : Type} [Rope R] [LawfulRope R] (s : Storage R), s.Holds d →
    Rope.position s.rope offset = .ok position ∧ position.line < s.states.length
  storedWidth : ∀ {R : Type} [Rope R] [LawfulRope R] (s : Storage R), s.Holds d →
    d.length < Checked.addressSize → ∃ width,
      s.lineWidth? position.line = .ok (some width) ∧ d.text.columnAt offset ≤ width

theorem position_by_newlines {d : Document} (reachable : d.Reachable) {offset : Nat}
    (inside : offset ≤ d.length) : ∃ position, d.PositionedAt offset position := by
  have sound := reachable.sound
  rcases (exists_caret?_iff sound.nonempty).mpr inside with ⟨caret, resolved⟩
  have there := sound.getElem?_lineAt resolved
  have here : d.text.lineAt offset < d.lineCount := (List.getElem?_eq_some_iff.mp there).1
  have width : d.lineWidth? (d.text.lineAt offset) = some caret.line.text.utf16.length := by
    rw [lineWidth?, there, Text.length_utf16]
    rfl
  have column := sound.columnAt_eq resolved
  have parts : caret.line.text.utf16 = caret.before.utf16 ++ caret.after.utf16 := by
    rw [← Text.utf16_append, caret.before_append_after]
  have within : d.text.columnAt offset ≤ caret.line.text.utf16.length := by
    rw [column, parts, List.length_append]
    exact Nat.le_add_right _ _
  refine ⟨_, sound.position?_eq resolved, rfl, toNat_ofNatClamp_eq_min _, here,
    ⟨caret.line.text, ?_, width, within, ?_⟩, ?_, ?_, ?_⟩
  · rw [lineText?, there]
    rfl
  · rw [column, ← caret.before_append_after]
    exact Text.not_dividesPair _ _
  · intro later lt bound
    exact Text.precedes_of_lt lt bound
  · intro R _ _ s holds
    have found := sound.position?_eq resolved
    rw [position?, resolved, Option.map_some, Option.some.injEq] at found
    constructor
    · rw [Rope.position_eq_ok sound holds.text resolved, found]
    · rw [holds.lineCount]
      exact here
  · intro R _ _ s holds fits
    exact ⟨_, (holds.lineWidth?_eq_ok sound fits _).trans (congrArg Except.ok width), within⟩

/-- After a character of two units, and at the end behind two newlines. -/
theorem position_by_newlines_after_pair :
    let d := ofText ['a', '😀', 'b', '\n', '\r', '\n'] default
    d.length = 6 ∧ d.position? 2 = some ⟨0, 3⟩ ∧ d.position? 6 = some ⟨2, 0⟩ ∧
      d.text.Precedes 2 6 ∧
      Rope.position (Storage.ofText d.text default : Storage Text).rope 6 = .ok ⟨2, 0⟩ := by
  intro d
  have reachable : d.Reachable := .ofText _ _
  have length : d.length = 6 := by decide +kernel
  have inside : 2 ≤ d.length := by omega
  have text : d.text = ['a', '😀', 'b', '\n', '\r', '\n'] := by decide +kernel
  rcases position_by_newlines reachable inside with ⟨⟨n, c⟩, inner⟩
  rcases position_by_newlines reachable (Nat.le_of_eq length.symm) with ⟨⟨m, e⟩, final⟩
  have line := inner.line
  have column := inner.column
  have bottom := final.line
  have left := final.column
  rw [text] at line column bottom left
  have first : n = 0 := line
  have wide : c = 3 := UInt32.toNat_inj.mp (column.trans (by decide +kernel))
  have last : m = 2 := bottom
  have begins : e = 0 := UInt32.toNat_inj.mp (left.trans (by decide +kernel))
  subst first wide last begins
  have holds : (Storage.ofText d.text default : Storage Text).Holds d := by
    rw [text]
    exact Storage.holds_ofText _ _
  exact ⟨length, inner.found, final.found, inner.order 6 (by decide) (by omega),
    (final.stored _ holds).1⟩

end Document

end TiledText
