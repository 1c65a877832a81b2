import Mathlib.Data.List.Forall2
import TiledText.Proofs.Success

/-!
# Less knowledge of the same lines

Two lists of lines can have the same texts and differ in what is known of them. One
of them has less knowledge than the other if each of its lines is unknown or has
the tiling of the other. An offset resolves to the same place in both, a line that
is joined in the first is joined in the second to the same tiling, and a line that
is split without being carried has less knowledge than one that is.
-/

namespace TiledText

namespace LineState

/-- Whatever the first state knows, the second knows as well. -/
def LessKnown (less more : LineState) : Prop :=
  ∀ t, less = some t → more = some t

theorem lessKnown_none (more : LineState) : LessKnown none more := by
  intro t known
  cases known

theorem LessKnown.refl (state : LineState) : state.LessKnown state :=
  fun _ known => known

theorem through_lessKnown {less more : LineState} (states : less.LessKnown more)
    {change : Tiling → Except TilingError Tiling} {u : Tiling}
    (done : less.through change = .ok (some u)) : more.through change = .ok (some u) := by
  rcases through_eq_some_iff.mp done with ⟨t, known, changed⟩
  exact through_eq_some_iff.mpr ⟨t, states t known, changed⟩

end LineState

namespace Line

structure LessKnown (less more : Line) : Prop where
  text : less.text = more.text
  state : less.state.LessKnown more.state

theorem lessKnown_fresh (line : Line) : (fresh line.text).LessKnown line where
  text := rfl
  state := LineState.lessKnown_none _

theorem settle_lessKnown (text : Text) {less more : LineState} (states : less.LessKnown more) :
    (settle text less).LessKnown (settle text more) where
  text := rfl
  state := by
    intro t known
    rcases state_settle_eq_some_iff.mp known with ⟨before, covered⟩
    exact state_settle_eq_some_iff.mpr ⟨states t before, covered⟩

end Line

/-!
## Lists of lines
-/

abbrev LinesLessKnown (less more : List Line) : Prop :=
  List.Forall₂ Line.LessKnown less more

theorem LinesLessKnown.refl (lines : List Line) : LinesLessKnown lines lines :=
  List.forall₂_same.mpr fun _ _ => ⟨rfl, .refl _⟩

theorem map_text_lessKnown {less more : List Line} (lines : LinesLessKnown less more) :
    less.map Line.text = more.map Line.text := by
  induction lines with
  | nil =>
      rfl
  | cons first _ ih =>
      rw [List.map_cons, List.map_cons, first.text, ih]

theorem map_fresh_lessKnown (lines : List Line) :
    LinesLessKnown ((lines.map Line.text).map Line.fresh) lines := by
  induction lines with
  | nil =>
      exact .nil
  | cons first rest ih =>
      exact .cons first.lessKnown_fresh ih

theorem zipWith_settle_lessKnown (texts : List Text) {less more : List LineState}
    (states : List.Forall₂ LineState.LessKnown less more) :
    LinesLessKnown (List.zipWith Line.settle texts less)
      (List.zipWith Line.settle texts more) := by
  induction states generalizing texts with
  | nil =>
      rw [List.zipWith_nil_right]
      exact .nil
  | cons first _ ih =>
      cases texts with
      | nil =>
          exact .nil
      | cons text rest =>
          exact .cons (Line.settle_lessKnown text first) (ih rest)

/-!
## Reading and writing states

A line is found in both lists or in neither.
-/

theorem none_or_some_of_rel {α β : Type} {r : α → β → Prop} {x : Option α} {y : Option β}
    (same : Option.Rel r x y) :
    (x = none ∧ y = none) ∨ ∃ a b, x = some a ∧ y = some b ∧ r a b := by
  cases same with
  | none =>
      exact Or.inl ⟨rfl, rfl⟩
  | some related =>
      exact Or.inr ⟨_, _, rfl, rfl, related⟩

theorem getElem?_lessKnown {less more : List Line} (lines : LinesLessKnown less more) (n : Nat) :
    Option.Rel Line.LessKnown less[n]? more[n]? := by
  induction lines generalizing n with
  | nil =>
      exact .none
  | cons first _ ih =>
      cases n with
      | zero =>
          exact .some first
      | succ m =>
          exact ih m

theorem modify_lessKnown {less more : List Line} (lines : LinesLessKnown less more)
    {change change' : Line → Line}
    (keeps : ∀ a b : Line, a.LessKnown b → (change a).LessKnown (change' b)) (n : Nat) :
    LinesLessKnown (less.modify n change) (more.modify n change') := by
  induction lines generalizing n with
  | nil =>
      rw [List.modify_nil, List.modify_nil]
      exact .nil
  | cons first rest ih =>
      cases n with
      | zero =>
          exact .cons (keeps _ _ first) rest
      | succ m =>
          exact .cons first (ih m)

/-!
## Carets and selections
-/

namespace Caret

structure LessKnown (less more : Caret) : Prop where
  above : LinesLessKnown less.above more.above
  line : less.line.LessKnown more.line
  column : less.column = more.column
  below : LinesLessKnown less.below more.below

theorem LessKnown.before {less more : Caret} (carets : less.LessKnown more) :
    less.before = more.before := by
  rw [Caret.before, Caret.before, carets.line.text, carets.column]

theorem LessKnown.after {less more : Caret} (carets : less.LessKnown more) :
    less.after = more.after := by
  rw [Caret.after, Caret.after, carets.line.text, carets.column]

theorem LessKnown.position {less more : Caret} (carets : less.LessKnown more) :
    less.position = more.position := by
  rw [Caret.position, Caret.position, carets.before, carets.above.length_eq]

theorem LessKnown.under {less more : Caret} (carets : less.LessKnown more) {top top' : Line}
    (lines : top.LessKnown top') : (less.under top).LessKnown (more.under top') where
  above := .cons lines carets.above
  line := carets.line
  column := carets.column
  below := carets.below

end Caret

theorem caret?_lessKnown {less more : List Line} (lines : LinesLessKnown less more)
    (offset : Nat) : Option.Rel Caret.LessKnown (caret? less offset) (caret? more offset) := by
  induction lines generalizing offset with
  | nil =>
      exact .none
  | @cons top top' _ _ first rest ih =>
      unfold caret?
      rw [first.text]
      by_cases inside : offset ≤ top'.text.length
      · rw [if_pos inside, if_pos inside]
        exact .some ⟨.nil, first, rfl, rest⟩
      · rw [if_neg inside, if_neg inside]
        rcases none_or_some_of_rel (ih (offset - (top'.text.length + 1))) with
          ⟨past, past'⟩ | ⟨caret, caret', found, found', carets⟩
        · rw [past, past']
          exact .none
        · rw [found, found']
          exact .some (carets.under first)

namespace Selection

structure LessKnown (less more : Selection) : Prop where
  first : less.first.LessKnown more.first
  last : less.last.LessKnown more.last

theorem LessKnown.withinLine {less more : Selection} (selections : less.LessKnown more) :
    less.withinLine = more.withinLine := by
  rw [Selection.withinLine, Selection.withinLine, selections.first.position,
    selections.last.position]

theorem LessKnown.joined {less more : Selection} (selections : less.LessKnown more) {j : Tiling}
    (remains : less.joined = .ok (some j)) : more.joined = .ok (some j) := by
  unfold Selection.joined at remains ⊢
  simp only [selections.withinLine, selections.first.position, selections.last.position]
    at remains
  cases within : more.withinLine with
  | true =>
      rw [within, if_pos rfl] at remains
      rw [if_pos rfl]
      exact LineState.through_lessKnown selections.first.line.state remains
  | false =>
      rw [within, if_neg (by decide)] at remains
      rw [if_neg (by decide)]
      rcases bind_eq_ok_iff.mp remains with ⟨head, cut, rest⟩
      rcases bind_eq_ok_iff.mp rest with ⟨tail, cut', appended⟩
      rcases LineState.append_eq_some_iff.mp appended with ⟨t, u, rfl, rfl, _⟩
      have further := LineState.through_lessKnown selections.first.line.state cut
      have further' := LineState.through_lessKnown selections.last.line.state cut'
      exact bind_eq_ok_iff.mpr ⟨_, further, bind_eq_ok_iff.mpr ⟨_, further', appended⟩⟩

end Selection

theorem select?_lessKnown {less more : List Line} (lines : LinesLessKnown less more)
    (start stop : Nat) :
    Option.Rel Selection.LessKnown (select? less start stop) (select? more start stop) := by
  unfold select?
  rcases none_or_some_of_rel (caret?_lessKnown lines start) with
    ⟨past, past'⟩ | ⟨first, first', found, found', carets⟩
  · rw [past, past']
    exact .none
  · rcases none_or_some_of_rel (caret?_lessKnown lines stop) with
      ⟨past, past'⟩ | ⟨last, last', reached, reached', carets'⟩
    · rw [found, found', past, past']
      exact .none
    · rw [found, found', reached, reached']
      by_cases ordered : start ≤ stop
      · simp only [Option.bind_eq_bind, Option.bind_some, if_pos ordered]
        exact .some ⟨carets, carets'⟩
      · simp only [Option.bind_eq_bind, Option.bind_some, if_neg ordered]
        exact .none

/-!
## Carrying less
-/

theorem carried_lessKnown {carry carry' : Bool} (weaker : carry = true → carry' = true)
    {column : UInt32} {state moved moved' : LineState}
    (taken : carried carry column state = .ok moved)
    (taken' : carried carry' column state = .ok moved') : moved.LessKnown moved' := by
  intro m known
  rw [known] at taken
  rcases carried_eq_some_iff.mp taken with ⟨carries, deleted⟩
  rw [carried_eq_some_iff.mpr ⟨weaker carries, deleted⟩] at taken'
  exact (Except.ok.inj taken').symm

theorem distribute_lessKnown {carry carry' : Bool} (weaker : carry = true → carry' = true)
    {column : UInt32} {state : LineState} {pieces : List Text} {states states' : List LineState}
    (done : distribute carry column state pieces = .ok states)
    (done' : distribute carry' column state pieces = .ok states') :
    List.Forall₂ LineState.LessKnown states states' := by
  cases pieces with
  | nil =>
      cases done
      cases done'
      exact .nil
  | cons first rest =>
      cases rest with
      | nil =>
          rcases distribute_one.mp done with ⟨wider, widened, rfl⟩
          rcases distribute_one.mp done' with ⟨wider', widened', rfl⟩
          rw [widened] at widened'
          cases widened'
          exact .cons (.refl _) .nil
      | cons second more =>
          rcases exists_middle first second more with ⟨middle, last, shape⟩
          rw [shape] at done done'
          rcases distribute_many.mp done with
            ⟨moved, kept, head, tail, taken, cut, front, back, rfl⟩
          rcases distribute_many.mp done' with
            ⟨moved', kept', head', tail', taken', cut', front', back', rfl⟩
          rw [cut] at cut'
          cases cut'
          rw [front] at front'
          cases front'
          have tails : tail.LessKnown tail' := by
            intro t known
            rw [known] at back
            have further := LineState.through_lessKnown (carried_lessKnown weaker taken taken') back
            exact Except.ok.inj (back'.symm.trans further)
          have middles : List.Forall₂ LineState.LessKnown (List.replicate middle.length none)
              (List.replicate middle.length none) :=
            List.forall₂_same.mpr fun state _ => .refl state
          exact .cons (.refl _) (List.rel_append middles (.cons tails .nil))

end TiledText
