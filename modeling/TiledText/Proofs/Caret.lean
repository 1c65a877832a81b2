import TiledText.Line
import TiledText.Proofs.Text.Pieces

/-!
# Carets in a document

A caret divides the text of a document into what stands before it and what stands
after it. The offset that it resolves is the length of the part before, and every
offset up to the length of the text has a caret.

Of the two carets of a selection the second does not come before the first. They
stand in one line, or else the line of the second is one of the lines below the
first.
-/

namespace TiledText

namespace Caret

def prior (caret : Caret) : Text :=
  caret.above.flatMap (·.text ++ ['\n']) ++ caret.before

def rest (caret : Caret) : Text :=
  caret.after ++ caret.below.flatMap (['\n'] ++ ·.text)

theorem prior_top (line : Line) (column : Nat) (below : List Line) :
    prior ⟨[], line, column, below⟩ = line.text.take column :=
  rfl

theorem prior_under (top : Line) (caret : Caret) :
    (caret.under top).prior = top.text ++ '\n' :: caret.prior := by
  simp [prior, under, before]

theorem before_append_after (caret : Caret) :
    caret.before ++ caret.after = caret.line.text :=
  List.take_append_drop _ _

end Caret

/-!
## Text around a line
-/

theorem ofLines_around (above below : List Line) (line : Line) :
    Text.ofLines ((above ++ line :: below).map Line.text) =
      above.flatMap (·.text ++ ['\n']) ++ (line.text ++ below.flatMap (['\n'] ++ ·.text)) := by
  rw [Text.ofLines, List.map_append, List.map_cons, intercalate_around, List.flatMap_map,
    List.flatMap_map]

/-!
## Resolving an offset

Exactly the offsets up to the end of the text have a caret.
-/

theorem caret?_eq_some_iff {lines : List Line} {offset : Nat} {caret : Caret} :
    caret? lines offset = some caret ↔
      lines = caret.above ++ caret.line :: caret.below ∧
        caret.column ≤ caret.line.text.length ∧ caret.prior.length = offset := by
  induction lines generalizing offset caret with
  | nil =>
      simp [caret?]
  | cons line below ih =>
      rcases caret with ⟨above, target, column, rest⟩
      unfold caret?
      by_cases inside : offset ≤ line.text.length
      · rw [if_pos inside]
        constructor
        · intro found
          cases found
          refine ⟨rfl, inside, ?_⟩
          rw [Caret.prior_top, List.length_take, Nat.min_eq_left inside]
        · intro described
          rcases described with ⟨same, bound, count⟩
          cases above with
          | nil =>
              rcases List.cons.inj same with ⟨rfl, rfl⟩
              rw [Caret.prior_top, List.length_take, Nat.min_eq_left bound] at count
              exact congrArg (fun n => some (Caret.mk [] line n below)) count.symm
          | cons top more =>
              -- A caret under another line is further on than this line reaches.
              rcases List.cons.inj same with ⟨rfl, rfl⟩
              have deeper := Caret.prior_under line ⟨more, target, column, rest⟩
              rw [Caret.under] at deeper
              rw [deeper, List.length_append, List.length_cons] at count
              omega
      · rw [if_neg inside, Option.map_eq_some_iff]
        constructor
        · intro found
          rcases found with ⟨deeper, resolved, same⟩
          rcases ih.mp resolved with ⟨shape, bound, count⟩
          rw [← same, Caret.prior_under, List.length_append, List.length_cons, count]
          exact ⟨by rw [shape]; rfl, bound, by omega⟩
        · intro described
          rcases described with ⟨same, bound, count⟩
          cases above with
          | nil =>
              rcases List.cons.inj same with ⟨rfl, rfl⟩
              rw [Caret.prior_top, List.length_take, Nat.min_eq_left bound] at count
              exact absurd (Nat.le_trans (Nat.le_of_eq count.symm) bound) inside
          | cons top more =>
              rcases List.cons.inj same with ⟨rfl, rfl⟩
              have deeper := Caret.prior_under line ⟨more, target, column, rest⟩
              rw [Caret.under] at deeper
              rw [deeper, List.length_append, List.length_cons] at count
              exact ⟨⟨more, target, column, rest⟩, ih.mpr ⟨rfl, bound, by omega⟩, rfl⟩

theorem ofLines_eq_prior_append_rest {lines : List Line} {offset : Nat} {caret : Caret}
    (resolved : caret? lines offset = some caret) :
    Text.ofLines (lines.map Line.text) = caret.prior ++ caret.rest := by
  rcases caret?_eq_some_iff.mp resolved with ⟨shape, _, _⟩
  rw [shape, ofLines_around, ← caret.before_append_after]
  simp [Caret.prior, Caret.rest]

theorem line_mem_of_caret? {lines : List Line} {offset : Nat} {caret : Caret}
    (resolved : caret? lines offset = some caret) : caret.line ∈ lines := by
  rcases caret?_eq_some_iff.mp resolved with ⟨shape, _, _⟩
  rw [shape]
  exact List.mem_append_right _ (List.mem_cons_self ..)

theorem prior_eq_take {lines : List Line} {offset : Nat} {caret : Caret}
    (resolved : caret? lines offset = some caret) :
    caret.prior = (Text.ofLines (lines.map Line.text)).take offset := by
  rcases caret?_eq_some_iff.mp resolved with ⟨_, _, count⟩
  rw [ofLines_eq_prior_append_rest resolved, ← count, List.take_left]

theorem rest_eq_drop {lines : List Line} {offset : Nat} {caret : Caret}
    (resolved : caret? lines offset = some caret) :
    caret.rest = (Text.ofLines (lines.map Line.text)).drop offset := by
  rcases caret?_eq_some_iff.mp resolved with ⟨_, _, count⟩
  rw [ofLines_eq_prior_append_rest resolved, ← count, List.drop_left]

theorem exists_caret?_iff {lines : List Line} (nonempty : lines ≠ []) {offset : Nat} :
    (∃ caret, caret? lines offset = some caret) ↔
      offset ≤ (Text.ofLines (lines.map Line.text)).length := by
  constructor
  · intro found
    rcases found with ⟨caret, resolved⟩
    rcases caret?_eq_some_iff.mp resolved with ⟨_, _, count⟩
    rw [ofLines_eq_prior_append_rest resolved, List.length_append, count]
    omega
  · intro bound
    induction lines generalizing offset with
    | nil =>
        exact absurd rfl nonempty
    | cons line below ih =>
        unfold caret?
        by_cases inside : offset ≤ line.text.length
        · rw [if_pos inside]
          exact ⟨_, rfl⟩
        · rw [if_neg inside]
          have more : below ≠ [] := by
            intro vacant
            rw [vacant, List.map_singleton, Text.ofLines, List.intercalate_singleton] at bound
            exact inside bound
          have total : (Text.ofLines ((line :: below).map Line.text)).length =
              line.text.length + 1 + (Text.ofLines (below.map Line.text)).length := by
            rw [Text.ofLines, List.map_cons, List.intercalate_cons_of_ne_nil (by simpa using more),
              List.length_append, List.length_append]
            rfl
          have deeper : offset - (line.text.length + 1) ≤
              (Text.ofLines (below.map Line.text)).length := by omega
          rcases ih more deeper with ⟨caret, resolved⟩
          rw [resolved]
          exact ⟨_, rfl⟩

/-!
## Lines with other states

A caret is found by the texts of the lines. Where these stay, a change of the lines is a
change of the lines around the caret.
-/

namespace Caret

def map (change : Line → Line) (caret : Caret) : Caret where
  above := caret.above.map change
  line := change caret.line
  column := caret.column
  below := caret.below.map change

theorem position_map {change : Line → Line} (keeps : ∀ line, (change line).text = line.text)
    (caret : Caret) : (caret.map change).position = caret.position := by
  simp [position, map, before, keeps]

end Caret

theorem caret?_map {change : Line → Line} (keeps : ∀ line, (change line).text = line.text)
    (lines : List Line) (offset : Nat) :
    caret? (lines.map change) offset = (caret? lines offset).map (Caret.map change) := by
  induction lines generalizing offset with
  | nil =>
      rfl
  | cons line below ih =>
      rw [List.map_cons, caret?, caret?, ih, keeps]
      split
      · rfl
      · rw [Option.map_map, Option.map_map]
        rfl

/-!
## Selections

Exactly the ordered ranges inside the text can be selected.
-/

namespace Selection

def map (change : Line → Line) (selection : Selection) : Selection :=
  ⟨selection.first.map change, selection.last.map change⟩

theorem withinLine_map {change : Line → Line} (keeps : ∀ line, (change line).text = line.text)
    (selection : Selection) : (selection.map change).withinLine = selection.withinLine := by
  simp [withinLine, map, Caret.position_map keeps]

end Selection

theorem select?_map {change : Line → Line} (keeps : ∀ line, (change line).text = line.text)
    (lines : List Line) (start stop : Nat) :
    select? (lines.map change) start stop =
      (select? lines start stop).map (Selection.map change) := by
  unfold select?
  rw [caret?_map keeps, caret?_map keeps]
  cases caret? lines start with
  | none =>
      rfl
  | some first =>
      cases caret? lines stop with
      | none =>
          rfl
      | some last =>
          by_cases ordered : start ≤ stop
          · simp [ordered, Selection.map]
          · simp [ordered]

theorem select?_eq_some_iff {lines : List Line} {start stop : Nat} {selection : Selection} :
    select? lines start stop = some selection ↔
      caret? lines start = some selection.first ∧ caret? lines stop = some selection.last ∧
        start ≤ stop := by
  unfold select?
  cases caret? lines start with
  | none =>
      simp
  | some first =>
      cases caret? lines stop with
      | none =>
          simp
      | some last =>
          rcases selection with ⟨_, _⟩
          by_cases ordered : start ≤ stop
          · simp [ordered]
          · simp [ordered]

theorem exists_select?_iff {lines : List Line} (nonempty : lines ≠ []) {start stop : Nat} :
    (∃ selection, select? lines start stop = some selection) ↔
      start ≤ stop ∧ stop ≤ (Text.ofLines (lines.map Line.text)).length := by
  constructor
  · intro found
    rcases found with ⟨selection, selected⟩
    rcases select?_eq_some_iff.mp selected with ⟨_, last, ordered⟩
    exact ⟨ordered, (exists_caret?_iff nonempty).mp ⟨_, last⟩⟩
  · intro range
    rcases range with ⟨ordered, bound⟩
    rcases (exists_caret?_iff nonempty).mpr (Nat.le_trans ordered bound) with ⟨first, start⟩
    rcases (exists_caret?_iff nonempty).mpr bound with ⟨last, stop⟩
    exact ⟨⟨first, last⟩, select?_eq_some_iff.mpr ⟨start, stop, ordered⟩⟩

namespace Selection

/-- Where a selection lies: inside one line, or from one line into one further down. -/
inductive Lies (selection : Selection) : Prop where
  | inside (within : selection.withinLine = true)
      (above : selection.last.above = selection.first.above)
      (line : selection.last.line = selection.first.line)
      (below : selection.last.below = selection.first.below)
      (ordered : selection.first.column ≤ selection.last.column)
  | across (between : List Line) (within : selection.withinLine = false)
      (above : selection.last.above =
        selection.first.above ++ selection.first.line :: between)
      (below : selection.first.below =
        between ++ selection.last.line :: selection.last.below)

end Selection

theorem prior_lt_of_above_eq {first last : Caret} {between : List Line}
    (inside : last.column ≤ last.line.text.length)
    (deeper : first.above = last.above ++ last.line :: between) :
    last.prior.length < first.prior.length := by
  rw [Caret.prior, Caret.prior, deeper, List.flatMap_append, List.flatMap_cons]
  simp only [List.length_append, List.length_singleton, Caret.before, List.length_take]
  omega

theorem lies_inside {selection : Selection} (above : selection.last.above = selection.first.above)
    (same : selection.first.line :: selection.first.below =
      selection.last.line :: selection.last.below)
    (start : selection.first.column ≤ selection.first.line.text.length)
    (stop : selection.last.column ≤ selection.last.line.text.length)
    (ordered : selection.first.prior.length ≤ selection.last.prior.length) :
    selection.Lies := by
  rcases List.cons.inj same with ⟨line, below⟩
  refine .inside ?_ above line.symm below.symm ?_
  · simp [Selection.withinLine, Caret.position, above]
  · rw [Caret.prior, Caret.prior, above, List.length_append, List.length_append, Caret.before,
      Caret.before, List.length_take, List.length_take, Nat.min_eq_left start,
      Nat.min_eq_left stop] at ordered
    omega

theorem lies_of_select? {lines : List Line} {start stop : Nat} {selection : Selection}
    (selected : select? lines start stop = some selection) : selection.Lies := by
  rcases select?_eq_some_iff.mp selected with ⟨first, last, ordered⟩
  rcases caret?_eq_some_iff.mp first with ⟨shape, startInside, startCount⟩
  rcases caret?_eq_some_iff.mp last with ⟨same, stopInside, stopCount⟩
  have counts : selection.first.prior.length ≤ selection.last.prior.length := by
    rw [startCount, stopCount]
    exact ordered
  rw [shape] at same
  rcases List.append_eq_append_iff.mp same with ⟨more, above, below⟩ | ⟨more, above, below⟩
  · cases more with
    | nil =>
        rw [List.append_nil] at above
        exact lies_inside above below startInside stopInside counts
    | cons line between =>
        rcases List.cons.inj below with ⟨top, bottom⟩
        rw [← top] at above
        refine .across between ?_ above bottom
        simp [Selection.withinLine, Caret.position, above]
  · cases more with
    | nil =>
        rw [List.append_nil] at above
        exact lies_inside above.symm below.symm startInside stopInside counts
    | cons line between =>
        -- The second caret would stand above the first.
        rcases List.cons.inj below with ⟨top, _⟩
        rw [← top] at above
        exact absurd counts (Nat.not_le_of_lt (prior_lt_of_above_eq stopInside above))

end TiledText
