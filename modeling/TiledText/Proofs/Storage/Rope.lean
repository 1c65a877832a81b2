import TiledText.Proofs.Document.Frame
import TiledText.Storage.Rope

/-!
# Reading a rope

A rope that holds the text of a sound document finds the lines of the document. A line is
found between those above and those below, and the numbers that the rope is asked for are
counts of what stands above. So they are inside the text, and what is subtracted is never
more than what it is subtracted from.
-/

namespace TiledText

theorem Checked.addressSize_lt_indexSize : addressSize < indexSize := by
  decide

namespace Text

theorem chomp_of_unbroken {text : Text} (unbroken : '\n' ∉ text) : text.chomp = text := by
  apply if_neg
  intro last
  exact unbroken (List.mem_of_getLast? last)

theorem chomp_newline (text : Text) : Text.chomp (text ++ ['\n']) = text := by
  simp [Text.chomp]

end Text

/-!
## The text around a line
-/

namespace Document

variable {d : Document} {above below : List Line} {line : Line}

theorem text_ofText (text : Text) (settings : Settings) : (ofText text settings).text = text := by
  rw [Document.text, ofText, List.map_map]
  exact (congrArg Text.ofLines (List.map_id _)).trans text.ofLines_lines

theorem exists_around {index : Nat} (there : d.lines[index]? = some line) :
    ∃ above below, d.lines = above ++ line :: below ∧ above.length = index := by
  rcases List.getElem?_eq_some_iff.mp there with ⟨inside, same⟩
  refine ⟨d.lines.take index, d.lines.drop (index + 1), ?_, ?_⟩
  · rw [← same, ← List.drop_eq_getElem_cons inside, List.take_append_drop]
  · rw [List.length_take, Nat.min_eq_left (Nat.le_of_lt inside)]

theorem Sound.startOfLine_eq (sound : d.Sound) (shape : d.lines = above ++ line :: below) :
    d.text.startOfLine above.length = (above.flatMap (·.text ++ ['\n'])).length := by
  have left : (d.lines.map Line.text).take above.length = above.map Line.text := by
    rw [shape, List.map_append, List.take_left' (List.length_map ..)]
  rw [Text.startOfLine, sound.lines_text, left, List.map_map, List.length_flatMap]
  simp [Function.comp_def]

theorem text_around (shape : d.lines = above ++ line :: below) :
    d.text =
      above.flatMap (·.text ++ ['\n']) ++ (line.text ++ below.flatMap (['\n'] ++ ·.text)) := by
  rw [text, shape, ofLines_around]

theorem Sound.lineCount_le (sound : d.Sound) : d.lineCount ≤ d.length + 1 := by
  rw [sound.lineCount_eq]
  exact Nat.succ_le_succ List.count_le_length

end Document

/-!
## Reads that do not fault
-/

namespace Rope

open Checked

variable {R : Type} [Rope R] [LawfulRope R] {rope : R} {d : Document}
variable {above below : List Line} {line : Line}

theorem lineCount_eq (sound : d.Sound) (holds : Rope.text rope = d.text) :
    lineCount rope = d.lineCount := by
  rw [LawfulRope.lineCount_eq, holds, sound.lines_text, List.length_map, Document.lineCount]

theorem lineStart_eq_ok (sound : d.Sound) (holds : Rope.text rope = d.text)
    (shape : d.lines = above ++ line :: below) :
    lineStart rope above.length = .ok (above.flatMap (·.text ++ ['\n'])).length := by
  have inside : above.length < (Rope.text rope).lines.length := by
    rw [holds, sound.lines_text, List.length_map, shape]
    simp
  rw [LawfulRope.lineStart_eq rope inside, holds, sound.startOfLine_eq shape]

theorem unitsBefore_eq_ok (holds : Rope.text rope = d.text) {front back : Text}
    (whole : d.text = front ++ back) : unitsBefore rope front.length = .ok front.width := by
  have inside : front.length ≤ (Rope.text rope).length := by
    rw [holds, whole, List.length_append]
    exact Nat.le_add_right _ _
  rw [LawfulRope.unitsBefore_eq rope inside, holds, whole, List.take_left]

theorem lineEnd_eq_ok (sound : d.Sound) (holds : Rope.text rope = d.text)
    (fits : d.length < addressSize) (shape : d.lines = above ++ line :: below) :
    lineEnd rope above.length =
      .ok (above.flatMap (·.text ++ ['\n']) ++ line.text).length := by
  have few := sound.lineCount_le
  have count := lineCount_eq sound holds
  rw [Document.lineCount, shape, List.length_append, List.length_cons] at few count
  have next : addIndex above.length 1 = .ok (above.length + 1) := by
    have space := addressSize_lt_indexSize
    exact addIndex_eq_ok (by omega)
  rw [lineEnd, next, ok_bind, count]
  cases below with
  | nil =>
      have last : ¬ above.length + 1 < above.length + (([] : List Line).length + 1) :=
        Nat.lt_irrefl _
      rw [if_neg last, LawfulRope.length_eq, holds, Document.text_around shape]
      simp
  | cons other more =>
      have deeper : d.lines = (above ++ [line]) ++ other :: more := by
        rw [shape, List.append_assoc]
        rfl
      have start := lineStart_eq_ok sound holds deeper
      have newline : (above ++ [line]).flatMap (·.text ++ ['\n']) =
          (above.flatMap (·.text ++ ['\n']) ++ line.text) ++ ['\n'] := by
        simp
      rw [List.length_append, List.length_singleton, newline, List.length_append,
        List.length_singleton] at start
      rw [if_pos (by simp), start, ok_bind]
      exact subIndex_eq_ok (Nat.le_add_left 1 _)

theorem lineWidth?_eq_ok (sound : d.Sound) (holds : Rope.text rope = d.text)
    (fits : d.length < addressSize) (index : Nat) :
    lineWidth? rope index = .ok (d.lineWidth? index) := by
  have count := lineCount_eq sound holds
  cases there : d.lines[index]? with
  | none =>
      have outside : lineCount rope ≤ index := by
        rw [count]
        exact List.getElem?_eq_none_iff.mp there
      rw [lineWidth?, if_pos outside, Document.lineWidth?, there]
      rfl
  | some line =>
      rcases Document.exists_around there with ⟨above, below, shape, rfl⟩
      have whole := Document.text_around shape
      have through := whole
      rw [← List.append_assoc] at through
      have inside : ¬ lineCount rope ≤ above.length := by
        rw [count, Document.lineCount, shape]
        simp
      rw [lineWidth?, if_neg inside, lineStart_eq_ok sound holds shape, ok_bind,
        lineEnd_eq_ok sound holds fits shape, ok_bind, unitsBefore_eq_ok holds through, ok_bind,
        unitsBefore_eq_ok holds whole, ok_bind, Text.width_append,
        subIndex_eq_ok (Nat.le_add_right _ _), ok_bind, Nat.add_sub_cancel_left,
        Document.lineWidth?, there]
      rfl

theorem lineText?_eq (sound : d.Sound) (holds : Rope.text rope = d.text) (index : Nat) :
    lineText? rope index = d.lineText? index := by
  rw [lineText?, LawfulRope.line?_eq, holds, Text.endedLine?, sound.lines_text,
    Document.lineText?, List.getElem?_map]
  cases there : d.lines[index]? with
  | none =>
      rfl
  | some line =>
      have unbroken := (sound.line line (List.mem_of_getElem? there)).unbroken
      rw [Option.map_some, Option.map_some, Option.map_some]
      split
      · rw [Text.chomp_newline]
      · rw [Text.chomp_of_unbroken unbroken]

theorem position_eq_ok (sound : d.Sound) (holds : Rope.text rope = d.text) {offset : Nat}
    {caret : Caret} (resolved : caret? d.lines offset = some caret) :
    position rope offset = .ok caret.position := by
  rcases caret?_eq_some_iff.mp resolved with ⟨shape, _, count⟩
  have whole : d.text = caret.prior ++ caret.rest := ofLines_eq_prior_append_rest resolved
  have inside : offset ≤ (Rope.text rope).length := by
    rw [holds]
    exact (exists_caret?_iff sound.nonempty).mp ⟨caret, resolved⟩
  have line : lineAt rope offset = .ok caret.above.length := by
    rw [LawfulRope.lineAt_eq rope inside, holds, sound.count_take resolved]
    rfl
  have through := unitsBefore_eq_ok holds whole
  rw [count] at through
  rw [position, line, ok_bind, lineStart_eq_ok sound holds shape, ok_bind, through, ok_bind,
    unitsBefore_eq_ok holds (Document.text_around shape), ok_bind, Caret.prior, Text.width_append,
    subIndex_eq_ok (Nat.le_add_right _ _), ok_bind, Nat.add_sub_cancel_left]
  rfl

end Rope

/-!
## The text as a rope
-/

theorem Text.startOfLine_le {text : Text} {index : Nat} (inside : index < text.lines.length) :
    text.startOfLine index ≤ text.length := by
  have sound := Document.sound_ofText text default
  have same := Document.text_ofText text default
  have bound : index < (Document.ofText text default).lines.length := by
    rw [Document.ofText, List.length_map]
    exact inside
  rcases Document.exists_around (List.getElem?_eq_getElem bound) with ⟨above, below, shape, rfl⟩
  have start := sound.startOfLine_eq shape
  have whole := Document.text_around shape
  rw [same] at start whole
  rw [start, whole, List.length_append]
  exact Nat.le_add_right _ _

instance : LawfulRope Text where
  text_ofText _ := rfl
  length_eq _ := rfl
  lineCount_eq _ := rfl
  line?_eq _ _ := rfl
  lineAt_eq _ _ inside := if_pos inside
  lineStart_eq _ _ inside :=
    (if_pos (Nat.le_of_lt inside)).trans
      (congrArg Except.ok (Nat.min_eq_left (Text.startOfLine_le inside)))
  unitsBefore_eq _ _ inside := if_pos inside
  remove_eq _ _ _ ordered inside := ⟨_, if_pos ⟨ordered, inside⟩, rfl⟩
  insert_eq _ _ inside _ := ⟨_, if_pos inside, rfl⟩

end TiledText
