import TiledText.Proofs.Document.Soundness

/-!
# What is known of each code unit

The marks of a document say for each code unit of its text which tag is known for
it. There is none on an unknown line, and none for a newline.

An edit leaves text standing before and after it. What is known of that text
after the edit was known before, tag for tag: states may be lost, but no code unit
ever gets another tag. This holds of every edit, also of one that the tilings
cannot follow.
-/

namespace TiledText

/-!
## Less is known
-/

/-- Whatever is known now was known before, code unit by code unit. -/
def Fades (now before : List (Option UInt32)) : Prop :=
  ∀ (i : Nat) (tag : UInt32), now[i]? = some (some tag) → before[i]? = some (some tag)

theorem fades_refl (marks : List (Option UInt32)) : Fades marks marks :=
  fun _ _ known => known

theorem fades_unknown (n : Nat) (marks : List (Option UInt32)) :
    Fades (List.replicate n none) marks := by
  intro i tag known
  rw [List.getElem?_replicate] at known
  split at known
  · cases known
  · cases known

theorem fades_append {now before now' before' : List (Option UInt32)}
    (same : now.length = before.length) (first : Fades now before)
    (second : Fades now' before') : Fades (now ++ now') (before ++ before') := by
  intro i tag known
  rw [List.getElem?_append] at known ⊢
  rw [← same]
  split
  case isTrue inside =>
    rw [if_pos inside] at known
    exact first i tag known
  case isFalse beyond =>
    rw [if_neg beyond] at known
    exact second _ tag known

namespace Line

def marks (line : Line) : List (Option UInt32) :=
  match line.state with
  | none => List.replicate line.width none
  | some t => t.tags.map some

theorem marks_of_unknown {line : Line} (unknown : line.state = none) :
    line.marks = List.replicate line.width none := by
  rw [marks, unknown]

theorem marks_of_known {line : Line} {t : Tiling} (known : line.state = some t) :
    line.marks = t.tags.map some := by
  rw [marks, known]

theorem Sound.length_marks {line : Line} (sound : line.Sound) :
    line.marks.length = line.text.width := by
  cases known : line.state with
  | none =>
      rw [marks_of_unknown known, List.length_replicate]
      rfl
  | some t =>
      rw [marks_of_known known, List.length_map, sound.length_tags known]

end Line

/-!
## Marks around a caret
-/

theorem length_flatMap_marks {lines : List Line} {marks : Line → List (Option UInt32)}
    {texts : Line → Text} (each : ∀ line ∈ lines, (marks line).length = (texts line).width) :
    (lines.flatMap marks).length = Text.width (lines.flatMap texts) := by
  induction lines with
  | nil =>
      rfl
  | cons line rest ih =>
      have first := each line (List.mem_cons_self ..)
      have later := ih fun other member => each other (List.mem_cons_of_mem _ member)
      rw [List.flatMap_cons, List.flatMap_cons, List.length_append, Text.width_append, first,
        later]

namespace Caret

def priorMarks (caret : Caret) : List (Option UInt32) :=
  caret.above.flatMap (·.marks ++ [none]) ++ caret.line.marks.take caret.before.width

def restMarks (caret : Caret) : List (Option UInt32) :=
  caret.line.marks.drop caret.before.width ++ caret.below.flatMap ([none] ++ ·.marks)

theorem length_priorMarks {caret : Caret} (above : ∀ line ∈ caret.above, line.Sound)
    (line : caret.line.Sound) : caret.priorMarks.length = caret.prior.width := by
  have parts := caret.width_before_add_width_after
  have upper : (caret.above.flatMap (·.marks ++ [none])).length =
      Text.width (caret.above.flatMap (·.text ++ ['\n'])) := by
    apply length_flatMap_marks
    intro other member
    rw [List.length_append, Text.width_append, (above other member).length_marks]
    rfl
  rw [Caret.priorMarks, Caret.prior, List.length_append, List.length_take, line.length_marks,
    upper, Text.width_append, Nat.min_eq_left (by omega)]

theorem length_restMarks {caret : Caret} (line : caret.line.Sound)
    (below : ∀ line ∈ caret.below, line.Sound) :
    caret.restMarks.length = caret.rest.width := by
  have parts := caret.width_before_add_width_after
  have lower : (caret.below.flatMap ([none] ++ ·.marks)).length =
      Text.width (caret.below.flatMap (['\n'] ++ ·.text)) := by
    apply length_flatMap_marks
    intro other member
    rw [List.length_append, Text.width_append, (below other member).length_marks]
    rfl
  rw [Caret.restMarks, Caret.rest, List.length_append, List.length_drop, line.length_marks,
    lower, Text.width_append]
  omega

end Caret

namespace Document

def marks (d : Document) : List (Option UInt32) :=
  [none].intercalate (d.lines.map Line.marks)

/-- The tag that is known for a code unit of the text, if one is. -/
def mark? (d : Document) (unit : Nat) : Option UInt32 :=
  d.marks[unit]?.join

theorem mark?_eq_some_iff {d : Document} {unit : Nat} {tag : UInt32} :
    d.mark? unit = some tag ↔ d.marks[unit]? = some (some tag) :=
  Option.join_eq_some_iff

theorem marks_eq_prior_append_rest {d : Document} {caret : Caret}
    (shape : d.lines = caret.above ++ caret.line :: caret.below) :
    d.marks = caret.priorMarks ++ caret.restMarks := by
  have middle := List.take_append_drop caret.before.width caret.line.marks
  rw [marks, shape, List.map_append, List.map_cons, intercalate_around, List.flatMap_map,
    List.flatMap_map, Caret.priorMarks, Caret.restMarks, List.append_assoc, ← List.append_assoc,
    ← List.append_assoc (List.take _ _), middle, List.append_assoc]

theorem Sound.length_marks {d : Document} (sound : d.Sound) :
    d.marks.length = d.text.width := by
  cases shape : d.lines with
  | nil =>
      exact absurd shape sound.nonempty
  | cons first rest =>
      have lines : ∀ line ∈ first :: rest, line.Sound := by
        rw [← shape]
        exact sound.line
      have top := lines first (List.mem_cons_self ..)
      have below : ∀ line ∈ rest, line.Sound :=
        fun line member => lines line (List.mem_cons_of_mem _ member)
      have resolved : caret? d.lines 0 = some ⟨[], first, 0, rest⟩ := by
        rw [shape, caret?, if_pos (Nat.zero_le _)]
      have split : d.marks = Caret.priorMarks ⟨[], first, 0, rest⟩ ++ _ :=
        marks_eq_prior_append_rest shape
      rw [split, text, ofLines_eq_prior_append_rest resolved, List.length_append,
        Text.width_append, Caret.length_restMarks top below, Caret.length_priorMarks ?_ top]
      intro line member
      cases member

/-!
Before a caret the marks are read off its prior marks, and from there on off its
rest marks.
-/

theorem Sound.length_priorMarks {d : Document} (sound : d.Sound) {caret : Caret}
    (shape : d.lines = caret.above ++ caret.line :: caret.below) :
    caret.priorMarks.length = caret.prior.width := by
  apply Caret.length_priorMarks
  · intro line member
    apply sound.line
    rw [shape]
    exact List.mem_append_left _ member
  · apply sound.line
    rw [shape]
    exact List.mem_append_right _ (List.mem_cons_self ..)

theorem Sound.mark?_before {d : Document} (sound : d.Sound) {caret : Caret}
    (shape : d.lines = caret.above ++ caret.line :: caret.below) {i : Nat} {tag : UInt32}
    (inside : i < caret.prior.width) :
    d.mark? i = some tag ↔ caret.priorMarks[i]? = some (some tag) := by
  rw [← sound.length_priorMarks shape] at inside
  rw [mark?_eq_some_iff, marks_eq_prior_append_rest shape, List.getElem?_append_left inside]

theorem Sound.mark?_after {d : Document} (sound : d.Sound) {caret : Caret}
    (shape : d.lines = caret.above ++ caret.line :: caret.below) {i : Nat} {tag : UInt32} :
    d.mark? (caret.prior.width + i) = some tag ↔ caret.restMarks[i]? = some (some tag) := by
  rw [← sound.length_priorMarks shape, mark?_eq_some_iff, marks_eq_prior_append_rest shape,
    List.getElem?_append_right (Nat.le_add_right _ _), Nat.add_sub_cancel_left]

end Document

end TiledText
