import TiledText.Proofs.Storage.Storing

/-!
# Reading by line

A text is taken apart at its newlines and nowhere else. Whatever stands between two of them is
a line, with a carriage return or a separator at its end if there is one. The lines, with a
newline between any two, are the text again.

A document keeps its lines apart. Storage does not: it counts its states, cuts a line out of the
rope up to the newline, and measures one by the offsets at which it begins and ends. The three
agree with each other and with the lines of the text.
-/

namespace TiledText

/--
What is read of a text by the number of a line: the stretches between its newlines in order,
their widths in code units, and nothing beyond the last.
-/
structure LineView (text : Text) (count : Nat) (lineText? : Nat → Option Text)
    (lineWidth? : Nat → Option Nat) : Prop where
  counted : count = text.count '\n' + 1
  joined : ∃ parts, (List.range count).map lineText? = parts.map some ∧
    Text.ofLines parts = text
  unbroken : ∀ i part, lineText? i = some part → '\n' ∉ part
  stretch : ∀ front part back, text = front ++ part ++ back → '\n' ∉ part →
    (front = [] ∨ front.getLast? = some '\n') → (back = [] ∨ back.head? = some '\n') →
    lineText? (front.count '\n') = some part
  width : ∀ i, lineWidth? i = (lineText? i).map fun part => part.utf16.length
  beyond : ∀ i, count ≤ i → lineText? i = none ∧ lineWidth? i = none

namespace Text

/-!
## The lines of a text

A stretch up to a newline or to the end is a line, and its number counts the newlines in
front of it.
-/

theorem lines_append_newline (above below : Text) :
    lines (above ++ '\n' :: below) = lines above ++ lines below := by
  induction above with
  | nil =>
      exact lines_newline below
  | cons c rest ih =>
      rw [List.cons_append]
      by_cases newline : c = '\n'
      · rw [newline, lines_newline, lines_newline, ih, List.cons_append]
      · rw [lines_cons newline, lines_cons newline, ih]
        cases shape : lines rest with
        | nil =>
            exact absurd shape (lines_ne_nil rest)
        | cons first more =>
            rfl

theorem head?_lines {part back : Text} (unbroken : '\n' ∉ part)
    (ends : back = [] ∨ back.head? = some '\n') : (lines (part ++ back))[0]? = some part := by
  cases ends with
  | inl final =>
      rw [final, List.append_nil, lines_of_unbroken unbroken]
      rfl
  | inr newline =>
      rcases List.head?_eq_some_iff.mp newline with ⟨below, rfl⟩
      rw [lines_append_newline, lines_of_unbroken unbroken]
      rfl

theorem getElem?_lines_stretch {front part back : Text} (unbroken : '\n' ∉ part)
    (begins : front = [] ∨ front.getLast? = some '\n')
    (ends : back = [] ∨ back.head? = some '\n') :
    (lines (front ++ part ++ back))[front.count '\n']? = some part := by
  rw [List.append_assoc]
  cases begins with
  | inl first =>
      rw [first]
      exact head?_lines unbroken ends
  | inr newline =>
      rcases List.getLast?_eq_some_iff.mp newline with ⟨above, rfl⟩
      have number : (above ++ ['\n']).count '\n' = (lines above).length := by
        rw [List.count_append, length_lines]
        rfl
      rw [number, List.append_assoc, List.singleton_append, lines_append_newline,
        List.getElem?_append_right (Nat.le_refl _), Nat.sub_self]
      exact head?_lines unbroken ends

theorem lineView_lines (text : Text) :
    LineView text text.lines.length (fun i => text.lines[i]?)
      fun i => text.lines[i]?.map fun part => part.utf16.length where
  counted := text.length_lines
  joined := by
    refine ⟨text.lines, ?_, text.ofLines_lines⟩
    apply List.ext_getElem?
    intro i
    rw [List.getElem?_map, List.getElem?_map]
    by_cases inside : i < text.lines.length
    · rw [List.getElem?_range inside, List.getElem?_eq_getElem inside, Option.map_some,
        Option.map_some, List.getElem?_eq_getElem inside]
    · rw [List.getElem?_eq_none (by rw [List.length_range]; exact Nat.le_of_not_lt inside),
        List.getElem?_eq_none (Nat.le_of_not_lt inside)]
      rfl
  unbroken := by
    intro i part there
    exact newline_not_mem_of_mem_lines (List.mem_of_getElem? there)
  stretch := by
    intro front part back shape unbroken begins ends
    rw [shape]
    exact getElem?_lines_stretch unbroken begins ends
  width _ := rfl
  beyond := by
    intro i past
    have absent := List.getElem?_eq_none past
    exact ⟨absent, congrArg (Option.map _) absent⟩

end Text

namespace Document

variable {d : Document}

theorem Sound.lineText?_eq (sound : d.Sound) (i : Nat) : d.lineText? i = d.text.lines[i]? := by
  rw [sound.lines_text, List.getElem?_map]
  rfl

theorem Sound.lineView (sound : d.Sound) :
    LineView d.text d.lineCount d.lineText? d.lineWidth? := by
  have count : d.lineCount = d.text.lines.length := by
    rw [sound.lines_text, List.length_map]
    rfl
  rw [count, funext sound.lineText?_eq, funext sound.lineWidth?_eq]
  exact d.text.lineView_lines

theorem tiling?_of_beyond {i : Nat} (beyond : d.lineCount ≤ i) : d.tiling? i = none := by
  rw [tiling?, List.getElem?_eq_none beyond]
  rfl

end Document

namespace Storage

open Checked

variable {R : Type} [Rope R] {s : Storage R} {d : Document}

theorem Holds.buffer? (holds : s.Holds d) (i : Nat) :
    s.buffer? i = (d.tiling? i).map Tiling.buffer := by
  rw [Storage.buffer?, holds.states, List.getElem?_map, Document.tiling?]
  cases d.lines[i]? with
  | none =>
      rfl
  | some line =>
      rfl

theorem Holds.lineView [LawfulRope R] (holds : s.Holds d) (sound : d.Sound) :
    LineView (Rope.text s.rope) s.states.length s.lineText? d.lineWidth? := by
  have texts : s.lineText? = d.lineText? := funext (Rope.lineText?_eq sound holds.text)
  rw [holds.text, holds.lineCount, texts]
  exact sound.lineView

end Storage

namespace Document

/-!
## Reading by line

A reachable document is read by line as its text is taken apart at the newlines. So is storage
that holds the document, without a fault, and it has a state for every line of the rope. Beyond
the last line there is neither text nor width nor tiling.
-/

theorem lines_decompose_text {d : Document} (reachable : d.Reachable) :
    LineView d.text d.lineCount d.lineText? d.lineWidth? ∧
      (∀ i, d.lineCount ≤ i → d.tiling? i = none) ∧
      ∀ {R : Type} [Rope R] [LawfulRope R] (s : Storage R), s.Holds d →
        d.length < Checked.addressSize →
        ∃ lineWidth? : Nat → Option Nat, (∀ i, s.lineWidth? i = .ok (lineWidth? i)) ∧
          LineView (Rope.text s.rope) s.states.length s.lineText? lineWidth? ∧
          s.states.length = Rope.lineCount s.rope ∧
          ∀ i, s.states.length ≤ i → s.buffer? i = none := by
  have sound := reachable.sound
  refine ⟨sound.lineView, fun i beyond => tiling?_of_beyond beyond, ?_⟩
  intro R _ _ s holds fits
  refine ⟨d.lineWidth?, holds.lineWidth?_eq_ok sound fits, holds.lineView sound, ?_, ?_⟩
  · rw [holds.lineCount, Rope.lineCount_eq sound holds.text]
  · intro i beyond
    rw [holds.lineCount] at beyond
    rw [holds.buffer?, tiling?_of_beyond beyond]
    rfl

/-- A carriage return and a line separator at the ends of lines, and a newline at the end. -/
theorem lines_decompose_text_with_returns :
    let d := ofText ['a', '\r', '\n', '😀', '\u2028', '\n'] default
    d.lineText? 0 = some ['a', '\r'] ∧ d.lineText? 1 = some ['😀', '\u2028'] ∧
      d.lineText? 2 = some [] ∧ d.lineWidth? 1 = some 3 ∧ d.lineText? 3 = none ∧
      (Storage.ofText d.text default : Storage Text).lineWidth? 1 = .ok (some 3) := by
  intro d
  rcases lines_decompose_text (.ofText _ _ : d.Reachable) with ⟨view, _, stored⟩
  have text : d.text = ['a', '\r', '\n', '😀', '\u2028', '\n'] := by decide +kernel
  have first : d.lineText? 0 = some ['a', '\r'] :=
    view.stretch [] _ ['\n', '😀', '\u2028', '\n'] text (by decide) (Or.inl rfl) (Or.inr rfl)
  have second : d.lineText? 1 = some ['😀', '\u2028'] :=
    view.stretch ['a', '\r', '\n'] _ ['\n'] text (by decide) (Or.inr rfl) (Or.inr rfl)
  have last : d.lineText? 2 = some [] :=
    view.stretch ['a', '\r', '\n', '😀', '\u2028', '\n'] [] [] text (by decide)
      (Or.inr rfl) (Or.inl rfl)
  have width : d.lineWidth? 1 = some 3 := by
    rw [view.width, second]
    rfl
  have holds : (Storage.ofText d.text default : Storage Text).Holds d := by
    rw [text]
    exact Storage.holds_ofText _ _
  rcases stored _ holds (by decide +kernel) with ⟨widths, read, stands, _, _⟩
  have here : widths 1 = some 3 := by
    rw [stands.width, show (Storage.ofText d.text default : Storage Text).lineText? 1 =
      some ['😀', '\u2028'] from (Rope.lineText?_eq (sound_ofText _ _) holds.text 1).trans second]
    rfl
  refine ⟨first, second, last, width, (view.beyond 3 (by decide +kernel)).1, ?_⟩
  rw [read, here]

end Document

end TiledText
