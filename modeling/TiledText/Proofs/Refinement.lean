import TiledText.Proofs.Success

/-!
# Editing lists of tags

Without tilings, what is known of a line is its list of tags, or nothing. An edit
of such lists is easily said: the selected lines are cut and joined, and then the
joined line is split and widened. The replay of an edit does just that, and a new
line stays known unless text stands in it to which no tag can be given.

Lines with a hairline are left aside here. A hairline is the tag of no code unit,
so the lists of tags do not show it.
-/

namespace TiledText

namespace Line

def tags? (line : Line) : Option (List UInt32) :=
  line.state.map Tiling.tags

end Line

/-!
## The abstract edit
-/

/--
Makes room for `width` code units at `offset`. They get the tag before them, or
the first tag at the beginning of the line. A line without a tag has none to give.
-/
def widenTags (offset width : Nat) (tags : List UInt32) : Option (List UInt32) :=
  if tags = [] ∧ 0 < width then
    none
  else
    some (tags.take offset ++ List.replicate width (tags.getD (offset - 1) 0) ++
      tags.drop offset)

/-- The tags before one column of the first line and from another of the last. -/
def joinTags (first last : Option (List UInt32)) (column further : Nat) :
    Option (List UInt32) :=
  first.bind fun before => last.map fun after => before.take column ++ after.drop further

/-- The tags of the new lines, from those of the joined line and the widths of what is inserted. -/
def placeTags (carry : Bool) (column : Nat) (joined : Option (List UInt32)) :
    List Nat → List (Option (List UInt32))
  | [] => []
  | [only] => [joined.bind (widenTags column only)]
  | first :: second :: more =>
      let kept := joined.map (List.take column)
      let moved := if carry then joined.map (List.drop column) else none
      kept.bind (widenTags column first) ::
        (List.replicate more.length none ++
          [moved.bind (widenTags 0 ((second :: more).getLast (List.cons_ne_nil _ _)))])

theorem placeTags_many {carry : Bool} {column first last : Nat} {middle : List Nat}
    {joined : Option (List UInt32)} :
    placeTags carry column joined (first :: (middle ++ [last])) =
      (joined.map (List.take column)).bind (widenTags column first) ::
        (List.replicate middle.length none ++
          [(if carry then joined.map (List.drop column) else none).bind (widenTags 0 last)]) := by
  cases middle with
  | nil =>
      rfl
  | cons second more =>
      have final : (second :: (more ++ [last])).getLast (List.cons_ne_nil _ _) = last :=
        List.getLast_concat (l := second :: more)
      simp [placeTags, final]

/-!
## Widening
-/

theorem tags?_settle (text : Text) (t : Tiling) :
    (Line.settle text (some t)).tags? =
      if t.length.toNat = text.width then some t.tags else none := by
  rw [Line.settle, Line.tags?, Option.filter_some, Line.covers]
  by_cases covers : t.length.toNat = text.width
  · simp [covers]
  · simp [covers]

theorem widenTags_nil (offset width : Nat) :
    widenTags offset width [] = if width = 0 then some [] else none := by
  by_cases zero : width = 0
  · simp [widenTags, zero]
  · simp [widenTags, zero, Nat.pos_of_ne_zero zero]

/-- A nonempty tiling always has a tag to give. -/
theorem widenTags_of_insert {t u : Tiling} {offset width : UInt32}
    (inserted : t.insert offset width = .ok u) (plain : t.hairline = false)
    (nonempty : t.isEmpty = false) :
    widenTags offset.toNat width.toNat t.tags = some u.tags := by
  have tagged : t.tags ≠ [] := by
    intro blank
    have empty := Tiling.isEmpty_of_length_eq_zero plain ((Tiling.tags_eq_nil_iff t).mp blank)
    rw [nonempty] at empty
    cases empty
  rcases Tiling.tags_insert inserted nonempty with ⟨tag, found, law⟩
  rw [Tiling.tagBefore?_eq plain] at found
  rw [widenTags, if_neg fun blank => tagged blank.1, law, List.getD_eq_getElem?_getD, found,
    Option.getD_some]

theorem tags?_settle_insert {state wider : LineState} {offset width : UInt32} {text : Text}
    {column more : Nat} (inserted : state.insert offset width = .ok wider)
    (fits : ∀ t, state = some t → t.hairline = false ∧ offset.toNat = column ∧
      width.toNat = more ∧ text.width = t.length.toNat + more) :
    (Line.settle text wider).tags? = (state.map Tiling.tags).bind (widenTags column more) := by
  cases state with
  | none =>
      rw [← Except.ok.inj inserted]
      rfl
  | some t =>
      rcases fits t rfl with ⟨plain, rfl, rfl, covers⟩
      cases wider with
      | none =>
          cases LineState.through_eq_none_iff.mp inserted
      | some u =>
          rcases LineState.through_eq_some_iff.mp inserted with ⟨_, same, widened⟩
          cases same
          rw [tags?_settle, covers, Option.map_some, Option.bind_some]
          cases known : t.isEmpty with
          | true =>
              have kept : u = Tiling.empty := by
                rcases Tiling.insert_cases widened with ⟨_, same⟩ | ⟨filled, _⟩
                · rw [same, Tiling.isEmpty_iff.mp known]
                · rw [known] at filled
                  cases filled
              rw [kept, Tiling.isEmpty_iff.mp known, Tiling.tags_empty, widenTags_nil]
              simp [Tiling.length, Tiling.reach, Tiling.empty, eq_comm]
          | false =>
              rw [widenTags_of_insert widened plain known,
                if_pos (Tiling.length_insert widened known)]

/-!
## Cutting
-/

theorem map_tags_through {change : Tiling → Except TilingError Tiling} {state after : LineState}
    {f : List UInt32 → List UInt32} (done : state.through change = .ok after)
    (law : ∀ t u, state = some t → change t = .ok u → u.tags = f t.tags) :
    after.map Tiling.tags = (state.map Tiling.tags).map f := by
  cases after with
  | none =>
      rw [LineState.through_eq_none_iff.mp done]
      rfl
  | some u =>
      rcases LineState.through_eq_some_iff.mp done with ⟨t, known, changed⟩
      rw [known, Option.map_some, Option.map_some, Option.map_some, law t u known changed]

theorem map_tags_deleteEnding {state kept : LineState} {offset : UInt32} {column : Nat}
    (cut : state.deleteEnding offset = .ok kept)
    (place : ∀ t, state = some t → offset.toNat = column) :
    kept.map Tiling.tags = (state.map Tiling.tags).map (List.take column) := by
  apply map_tags_through cut
  intro t u known deleted
  rw [Tiling.tags_deleteEnding deleted, place t known]

theorem map_tags_carried {carry : Bool} {state moved : LineState} {offset : UInt32}
    {column : Nat} (taken : carried carry offset state = .ok moved)
    (place : ∀ t, state = some t → offset.toNat = column) :
    moved.map Tiling.tags =
      if carry then (state.map Tiling.tags).map (List.drop column) else none := by
  cases carry with
  | false =>
      rw [← Except.ok.inj taken]
      rfl
  | true =>
      apply map_tags_through taken
      intro t u known deleted
      rw [Tiling.tags_deleteBeginning deleted, place t known]

/-!
## Joining
-/

namespace Selection

structure Plain (selection : Selection) : Prop where
  first : ∀ t, selection.first.line.state = some t → t.hairline = false
  last : ∀ t, selection.last.line.state = some t → t.hairline = false

theorem Plain.not_clashes {selection : Selection} (plain : selection.Plain) :
    ¬ selection.Clashes := by
  intro clash
  rcases clash with ⟨_, _, _, u, last, _, hairline, _⟩
  rw [plain.last u last] at hairline
  cases hairline

theorem Plain.joined {selection : Selection} (plain : selection.Plain) {j : Tiling}
    (remains : selection.joined = .ok (some j)) : j.hairline = false := by
  unfold Selection.joined at remains
  split at remains
  case isTrue within =>
    rcases LineState.through_eq_some_iff.mp remains with ⟨t, known, deleted⟩
    exact Tiling.plain_delete deleted (plain.first t known)
  case isFalse across =>
    rcases bind_eq_ok_iff.mp remains with ⟨head, cut, rest⟩
    rcases bind_eq_ok_iff.mp rest with ⟨tail, cut', joined⟩
    rcases LineState.append_eq_some_iff.mp joined with ⟨h, b, rfl, rfl, appended⟩
    rcases LineState.through_eq_some_iff.mp cut with ⟨t, first, ending⟩
    rcases LineState.through_eq_some_iff.mp cut' with ⟨u, last, beginning⟩
    exact Tiling.hairline_append appended (Tiling.plain_delete ending (plain.first t first))
      (Tiling.plain_delete beginning (plain.last u last))

theorem Sound.map_tags_joined {selection : Selection} (sound : selection.Sound)
    {state : LineState} (remains : selection.joined = .ok state) :
    state.map Tiling.tags = joinTags selection.first.line.tags? selection.last.line.tags?
      selection.first.before.width selection.last.before.width := by
  unfold joinTags Line.tags?
  cases state with
  | none =>
      cases unknown_joined remains with
      | inl missing =>
          rw [missing]
          rfl
      | inr missing =>
          rw [missing]
          simp
  | some j =>
      rcases TiledText.tags_joined sound.lies remains with ⟨t, u, first, last, law⟩
      rw [Caret.toNat_column sound.first first, Caret.toNat_column sound.last last] at law
      rw [first, last, Option.map_some, Option.map_some, Option.map_some, Option.bind_some,
        Option.map_some, law]

end Selection

end TiledText
