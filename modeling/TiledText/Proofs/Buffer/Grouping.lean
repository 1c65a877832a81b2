import TiledText.Proofs.Buffer.Dividing
import TiledText.Proofs.Storage.Replay

/-!
# Joining in any grouping

Lines are joined two at a time. When several are joined in sequence, it does not matter which
two of them are joined at first. What can be joined is told by the lines themselves. All of
them together have to fit, and no line may begin with a hairline that stands behind another
one. A line without tokens is in nobody's way, and no question is asked of it.

The cause of a failure is not the same in every grouping. It names the lengths and the place
that the failing step sees.
-/

namespace TiledText

/-!
## Results without their causes
-/

theorem toOption_eq_some_iff {x : Except ε α} {a : α} : x.toOption = some a ↔ x = .ok a := by
  cases x with
  | error cause =>
      constructor <;> exact nofun
  | ok b =>
      rw [Except.ok.injEq]
      exact Option.some_inj

theorem toOption_bind (x : Except ε α) (next : α → Except ε β) :
    (x >>= next).toOption = x.toOption.bind fun a => (next a).toOption := by
  cases x <;> rfl

namespace Tiling

variable {t u v w : Tiling}

/-!
## What can be joined
-/

/-- One of the lines is without tokens, or they fit and no hairline stands at the seam. -/
def Joinable (t u : Tiling) : Prop :=
  t.isEmpty = true ∨ u.isEmpty = true ∨ (Fits t.length u.length ∧ u.hairline = false)

theorem append_empty (t : Tiling) : t.append empty = .ok t :=
  rfl

theorem empty_append (t : Tiling) : empty.append t = .ok t := by
  cases bare : t.isEmpty with
  | true =>
      rw [isEmpty_iff.mp bare]
      rfl
  | false =>
      rw [append, bare]
      rfl

theorem joinable_of_append (joined : t.append u = .ok v) : t.Joinable u := by
  rcases append_cases joined with ⟨bare, _⟩ | ⟨_, bare, _⟩ | ⟨_, filled, fits, _⟩
  · exact Or.inr (Or.inl bare)
  · exact Or.inl bare
  · refine Or.inr (Or.inr ⟨fits, ?_⟩)
    rw [Bool.eq_false_iff]
    intro thin
    rw [append_of_hairline fits filled thin] at joined
    cases joined

theorem append_of_joinable (joinable : t.Joinable u) : ∃ v, t.append u = .ok v := by
  rcases joinable with bare | bare | ⟨fits, plain⟩
  · rw [isEmpty_iff.mp bare]
    exact ⟨u, empty_append u⟩
  · rw [isEmpty_iff.mp bare]
    exact ⟨t, append_empty t⟩
  · exact append_eq_ok fits (Or.inr plain)

/-!
## Parts of what is joined
-/

theorem isEmpty_iff_toList : t.isEmpty = true ↔ t.toList = [] := by
  rw [isEmpty_iff]
  constructor
  · intro bare
    rw [bare]
    rfl
  · exact fun vacant => ext_toList vacant

theorem isEmpty_append_iff (joined : t.append u = .ok v) :
    v.isEmpty = true ↔ t.isEmpty = true ∧ u.isEmpty = true := by
  rw [isEmpty_iff_toList, isEmpty_iff_toList, isEmpty_iff_toList, toList_append joined,
    List.append_eq_nil_iff, List.map_eq_nil_iff]

theorem plain_of_append (joined : t.append u = .ok v) (plain : v.hairline = false) :
    t.hairline = false := by
  rw [Bool.eq_false_iff]
  intro thin
  rcases hairline_iff.mp thin with ⟨token, member, zero⟩
  have still : token ∈ v.toList := by
    rw [toList_append joined]
    exact List.mem_append_left _ member
  rw [hairline_iff.mpr ⟨token, still, zero⟩] at plain
  cases plain

theorem length_append_eq (joined : t.append u = .ok v) : v.length = u.length + t.length := by
  have bound := v.length.toNat_lt_size
  rw [length_append joined] at bound
  apply UInt32.toNat_inj.mp
  rw [UInt32.toNat_add, length_append joined, Nat.add_comm u.length.toNat]
  exact (Nat.mod_eq_of_lt bound).symm

theorem grow_grow (width more : UInt32) :
    Token.grow more ∘ Token.grow width = Token.grow (width + more) := by
  funext token
  simp [Token.grow, UInt32.add_assoc]

theorem toList_append_append {first second one other : Tiling} (early : t.append u = .ok first)
    (left : first.append v = .ok one) (late : u.append v = .ok second)
    (right : t.append second = .ok other) : one.toList = other.toList := by
  rw [toList_append left, toList_append early, toList_append right, toList_append late,
    List.map_append, List.map_map, grow_grow, ← length_append_eq early, List.append_assoc]

/-!
## Three lines

Both groupings ask the same of the three lines: that the sum of their lengths fits, and that
no hairline stands at a seam.
-/

theorem eq_of_append_empty (joined : t.append u = .ok v) (bare : u.isEmpty = true) : v = t := by
  rw [isEmpty_iff.mp bare] at joined
  exact (Except.ok.inj joined).symm

theorem eq_of_empty_append (joined : t.append u = .ok v) (bare : t.isEmpty = true) : v = u := by
  rw [isEmpty_iff.mp bare, empty_append] at joined
  exact (Except.ok.inj joined).symm

theorem joinable_right {first : Tiling} (early : t.append u = .ok first)
    (left : first.Joinable v) : ∃ second, u.append v = .ok second ∧ t.Joinable second := by
  have front := length_append early
  have last : u.Joinable v := by
    rcases left with bare | bare | ⟨fits, plain⟩
    · exact Or.inl ((isEmpty_append_iff early).mp bare).2
    · exact Or.inr (Or.inl bare)
    · have room : Fits u.length v.length := by
        unfold Fits at *
        omega
      exact Or.inr (Or.inr ⟨room, plain⟩)
  rcases append_of_joinable last with ⟨second, late⟩
  refine ⟨second, late, ?_⟩
  rcases joinable_of_append early with bare | bare | ⟨_, clear⟩
  · exact Or.inl bare
  · rw [eq_of_empty_append late bare]
    rw [eq_of_append_empty early bare] at left
    exact left
  · rcases left with bare | bare | ⟨fits, plain⟩
    · exact Or.inl ((isEmpty_append_iff early).mp bare).1
    · rw [eq_of_append_empty late bare]
      exact joinable_of_append early
    · have back := length_append late
      have room : Fits t.length second.length := by
        unfold Fits at *
        omega
      exact Or.inr (Or.inr ⟨room, hairline_append late clear plain⟩)

theorem joinable_left {second : Tiling} (late : u.append v = .ok second)
    (right : t.Joinable second) : ∃ first, t.append u = .ok first ∧ first.Joinable v := by
  have back := length_append late
  have initial : t.Joinable u := by
    rcases right with bare | bare | ⟨fits, plain⟩
    · exact Or.inl bare
    · exact Or.inr (Or.inl ((isEmpty_append_iff late).mp bare).1)
    · have room : Fits t.length u.length := by
        unfold Fits at *
        omega
      exact Or.inr (Or.inr ⟨room, plain_of_append late plain⟩)
  rcases append_of_joinable initial with ⟨first, early⟩
  refine ⟨first, early, ?_⟩
  rcases joinable_of_append late with bare | bare | ⟨_, clear⟩
  · rw [eq_of_append_empty early bare]
    rw [eq_of_empty_append late bare] at right
    exact right
  · exact Or.inr (Or.inl bare)
  · rcases right with bare | bare | ⟨fits, _⟩
    · rw [eq_of_empty_append early bare]
      exact joinable_of_append late
    · exact Or.inr (Or.inl ((isEmpty_append_iff late).mp bare).2)
    · have front := length_append early
      have room : Fits first.length v.length := by
        unfold Fits at *
        omega
      exact Or.inr (Or.inr ⟨room, clear⟩)

/-- Two steps of joining are made in one grouping just when they are made in the other. -/
theorem append_append_iff :
    (∃ first, t.append u = .ok first ∧ first.append v = .ok w) ↔
      ∃ second, u.append v = .ok second ∧ t.append second = .ok w := by
  constructor
  · rintro ⟨first, early, left⟩
    rcases joinable_right early (joinable_of_append left) with ⟨second, late, joinable⟩
    rcases append_of_joinable joinable with ⟨other, right⟩
    rw [ext_toList (toList_append_append early left late right)]
    exact ⟨second, late, right⟩
  · rintro ⟨second, late, right⟩
    rcases joinable_left late (joinable_of_append right) with ⟨first, early, joinable⟩
    rcases append_of_joinable joinable with ⟨other, left⟩
    rw [← ext_toList (toList_append_append early left late right)]
    exact ⟨first, early, left⟩

/-!
## Any number of lines

The joining of known lines is associative. In both groupings it fails, or in both it gives the
same line, and so it does in all groupings of any number of lines. Buffers give what the states
give, without a fault. A line without tokens can stand on either side of another one, and
leaves it as it is.
-/

theorem toOption_append_append (t u v : Tiling) :
    ((t.append u).toOption.bind fun first => (first.append v).toOption) =
      (u.append v).toOption.bind fun second => (t.append second).toOption := by
  apply Option.ext
  intro w
  simp only [Option.bind_eq_some_iff, toOption_eq_some_iff]
  exact append_append_iff

/-- Joins all lines, beginning with the last two of them. -/
def joinEach : List Tiling → Option Tiling
  | [] => some empty
  | t :: rest => (joinEach rest).bind fun u => (t.append u).toOption

theorem joinEach_append (front back : List Tiling) :
    joinEach (front ++ back) =
      (joinEach front).bind fun t => (joinEach back).bind fun u => (t.append u).toOption := by
  induction front with
  | nil =>
      have whole : ∀ u : Tiling, (empty.append u).toOption = some u :=
        fun u => congrArg Except.toOption (empty_append u)
      show joinEach back = (joinEach back).bind fun u => (empty.append u).toOption
      simp only [whole, Option.bind_fun_some]
  | cons t rest ih =>
      rw [List.cons_append, joinEach, joinEach, ih]
      cases joinEach rest with
      | none =>
          rfl
      | some u =>
          cases joinEach back with
          | none =>
              exact (Option.bind_fun_none (t.append u).toOption).symm
          | some v =>
              exact (toOption_append_append t u v).symm

end Tiling

inductive Grouping where
  | line (t : Tiling)
  | join (front back : Grouping)

namespace Grouping

def lines : Grouping → List Tiling
  | line t => [t]
  | join front back => front.lines ++ back.lines

def tiling : Grouping → Except TilingError Tiling
  | line t => .ok t
  | join front back => do
      let first ← front.tiling
      let second ← back.tiling
      first.append second

def state : Grouping → Except TilingError LineState
  | line t => .ok (some t)
  | join front back => do
      let first ← front.state
      let second ← back.state
      first.append second

def attempt : Grouping → Storage.Attempt (Option Buffer)
  | line t => pure (some t.buffer)
  | join front back => do
      let first ← front.attempt
      let second ← back.attempt
      Storage.append first second

theorem state_eq_tiling (grouping : Grouping) : grouping.state = grouping.tiling.map some := by
  induction grouping with
  | line t =>
      rfl
  | join front back first second =>
      rw [state, tiling, first, second]
      cases front.tiling with
      | error cause =>
          rfl
      | ok t =>
          cases back.tiling with
          | error cause =>
              rfl
          | ok u =>
              rfl

theorem attempt_eq_given (grouping : Grouping) :
    grouping.attempt = Storage.given (grouping.state.map LineState.buffer) := by
  induction grouping with
  | line t =>
      rfl
  | join front back first second =>
      rw [attempt, state, first, second]
      refine Storage.given_map_bind fun one => ?_
      refine Storage.given_map_bind fun other => ?_
      exact Storage.append_buffer one other

theorem toOption_tiling (grouping : Grouping) :
    grouping.tiling.toOption = Tiling.joinEach grouping.lines := by
  induction grouping with
  | line t =>
      rfl
  | join front back first second =>
      rw [lines, Tiling.joinEach_append, ← first, ← second, tiling, toOption_bind]
      congr 1
      funext t
      exact toOption_bind _ _

theorem toOption_state (grouping : Grouping) :
    grouping.state.toOption = (Tiling.joinEach grouping.lines).map some := by
  rw [state_eq_tiling, ← toOption_tiling]
  cases grouping.tiling <;> rfl

end Grouping

namespace Tiling

theorem append_by_grouping (t u v : Tiling) :
    (LineState.append (some t) (some u) >>= (LineState.append · (some v))).toOption =
        (LineState.append (some u) (some v) >>= (LineState.append (some t) ·)).toOption ∧
      (LineState.append (some empty) (some t) = .ok (some t) ∧
        LineState.append (some t) (some empty) = .ok (some t) ∧
        empty.buffer.append t.buffer = .ok (.ok t.buffer) ∧
        t.buffer.append empty.buffer = .ok (.ok t.buffer)) ∧
      ∀ one other : Grouping, one.lines = other.lines →
        one.state.toOption = other.state.toOption ∧
        one.attempt = Storage.given (one.state.map LineState.buffer) ∧
        other.attempt = Storage.given (other.state.map LineState.buffer) := by
  have groupings : ∀ one other : Grouping, one.lines = other.lines →
      one.state.toOption = other.state.toOption := by
    intro one other same
    rw [Grouping.toOption_state, Grouping.toOption_state, same]
  have front := empty_append t
  have back := append_empty t
  refine ⟨?_, ⟨?_, ?_, ?_, ?_⟩, ?_⟩
  · exact groupings (.join (.join (.line t) (.line u)) (.line v))
      (.join (.line t) (.join (.line u) (.line v))) rfl
  · exact congrArg (Except.map some) front
  · exact congrArg (Except.map some) back
  · exact Buffer.eq_ok_of_tiling (Buffer.append_eq_ok empty t) front
  · exact Buffer.eq_ok_of_tiling (Buffer.append_eq_ok t empty) back
  · intro one other same
    exact ⟨groupings one other same, one.attempt_eq_given, other.attempt_eq_given⟩

/--
Four lines in two groupings, the first of them with a hairline and the second without tokens.
When a hairline stands behind another line, both groupings fail, but not with the same cause.
-/
theorem append_by_grouping_of_four :
    (Grouping.join (.join (.line pairsAfterHairline) (.line empty))
        (.join (.line twoWords) (.line twoWords))).state.toOption =
      (Grouping.join (.join (.join (.line pairsAfterHairline) (.line empty)) (.line twoWords))
        (.line twoWords)).state.toOption ∧
    (Grouping.join (.line twoWords) (.join (.line twoWords) (.line pairsAfterHairline))).state =
      .error (.unordered 2) ∧
    (Grouping.join (.join (.line twoWords) (.line twoWords)) (.line pairsAfterHairline)).state =
      .error (.unordered 4) := by
  rcases append_by_grouping twoWords twoWords pairsAfterHairline with ⟨_, _, groupings⟩
  exact ⟨(groupings _ _ (by rfl)).1, by cbv, by cbv⟩

end Tiling

end TiledText
