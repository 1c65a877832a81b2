import TiledText.Proofs.Tiling.Tags

/-!
# Deletion and the tags

Taking a stretch out of a line takes the tags of that stretch out of its list of
tags. The law holds whenever a deletion succeeds, and it does whenever the
stretch lies in the line.

The tokens of a cut are searched on two sides of it. Before the cut the search
meets the kept tokens and then the one that the cut begins in, whether it was
severed or only became shorter. After the cut it meets the shifted tokens, as the
old tokens are met further on.
-/

namespace TiledText

namespace Tiling

/-!
## When a deletion succeeds
-/

theorem delete_eq_ok (t : Tiling) {start stop : UInt32} (le : start ≤ stop)
    (bound : stop ≤ t.length) : ∃ u, t.delete start stop = .ok u := by
  unfold delete
  rw [dif_pos ⟨le, bound⟩]
  split
  · exact ⟨_, rfl⟩
  · split
    · exact ⟨_, rfl⟩
    · split
      · exact ⟨_, rfl⟩
      · exact ⟨_, rfl⟩

theorem delete_self {t : Tiling} {offset : UInt32} (inside : offset ≤ t.length) :
    t.delete offset offset = .ok t := by
  unfold delete
  rw [dif_pos ⟨UInt32.le_refl _, inside⟩, if_pos rfl]
  split
  · rfl
  · rfl

theorem delete_cases {t u : Tiling} {start stop : UInt32}
    (deleted : t.delete start stop = .ok u) :
    (t.isEmpty = true ∧ u = t) ∨
      (t.isEmpty = false ∧ start ≤ stop ∧ stop ≤ t.length ∧
        ((start = stop ∧ u = t) ∨
          (start ≠ stop ∧ start = 0 ∧ stop = t.length ∧ u = empty) ∨
          (start ≠ stop ∧ ¬ (start = 0 ∧ stop = t.length) ∧
            u.tokens = t.cutTokens start stop))) := by
  unfold delete at deleted
  split at deleted
  case isTrue bare =>
    cases deleted
    exact Or.inl ⟨bare, rfl⟩
  case isFalse filled =>
    have nonempty : t.isEmpty = false := by simpa using filled
    split at deleted
    case isFalse outside =>
      cases deleted
    case isTrue range =>
      refine Or.inr ⟨nonempty, range.1, range.2, ?_⟩
      split at deleted
      case isTrue same =>
        cases deleted
        exact Or.inl ⟨same, rfl⟩
      case isFalse differ =>
        split at deleted
        case isTrue whole =>
          cases deleted
          exact Or.inr (Or.inl ⟨differ, whole.1, whole.2, rfl⟩)
        case isFalse part =>
          cases deleted
          exact Or.inr (Or.inr ⟨differ, part, rfl⟩)

/-!
## The tokens of a cut

Code units before the cut keep their tags, and those behind it have them further back.
-/

theorem head?_dropWhile {t : Tiling} {p : Token → Bool}
    (parted : Partitioned p t.tokens.toList) :
    (t.toList.dropWhile p).head? = t.tokens[partitionPoint t.tokens p]? := by
  rw [toList, ← toList_trailing parted, trailing, Array.toList_extract,
    List.extract_eq_take_drop, List.take_of_length_le (by simp), List.head?_drop,
    Array.getElem?_toList]

theorem toNat_stop_retreat {token : Token} {start stop : UInt32} (le : start ≤ stop)
    (past : stop.toNat < token.stop.toNat) :
    (token.retreat (stop - start)).stop.toNat =
      token.stop.toNat - (stop.toNat - start.toNat) := by
  have width := UInt32.toNat_sub_of_le _ _ le
  have fits : stop - start ≤ token.stop := by
    rw [UInt32.le_iff_toNat_le, width]
    omega
  rw [Token.retreat, UInt32.toNat_sub_of_le _ _ fits, width]

theorem tagAt?_cutTokens_after (t : Tiling) {start stop : UInt32} (le : start ≤ stop) {i : Nat}
    (beyond : start.toNat ≤ i) :
    tagAt? (t.cutTokens start stop).toList i =
      tagAt? t.toList (i + (stop.toNat - start.toNat)) := by
  have order := UInt32.le_iff_toNat_le.mp le
  have kept : tagAt? (t.toList.takeWhile (stopsBy start)) i = none := by
    apply tagAt?_eq_none_iff.mpr
    intro token member
    exact Nat.le_trans (stop_of_mem_takeWhile member) beyond
  have cut : tagAt? (t.severed? start stop).toList i = none := by
    apply tagAt?_eq_none_iff.mpr
    intro token member
    rw [stop_of_mem_severed (Option.mem_toList.mp member)]
    exact beyond
  have moved : tagAt? ((t.toList.dropWhile (stopsBy stop)).map (Token.retreat (stop - start))) i =
      tagAt? (t.toList.dropWhile (stopsBy stop)) (i + (stop.toNat - start.toNat)) := by
    refine tagAt?_map (fun token => rfl) ?_
    intro token member
    have past := stop_of_mem_dropWhile member
    rw [toNat_stop_retreat le past]
    omega
  rw [toList_cutTokens, tagAt?_append, tagAt?_append, kept, cut, Option.none_or,
    Option.none_or, moved, tagAt?_dropWhile t (by omega)]

theorem dropWhile_stopsBy (t : Tiling) {start stop : UInt32} (le : start ≤ stop) :
    t.toList.dropWhile (stopsBy stop) =
      (t.toList.dropWhile (stopsBy start)).dropWhile (stopsBy stop) := by
  have further : ∀ token ∈ t.toList.takeWhile (stopsBy start), stopsBy stop token = true := by
    intro token member
    have before := UInt32.le_iff_toNat_le.mpr (stop_of_mem_takeWhile member)
    exact decide_eq_true (UInt32.le_trans before le)
  conv => lhs; rw [← List.takeWhile_append_dropWhile (p := stopsBy start) (l := t.toList)]
  exact List.dropWhile_append_of_pos further

/-- The token in which a cut begins keeps its tag, severed or shortened. -/
theorem head?_severed (t : Tiling) {start stop : UInt32} (le : start ≤ stop)
    (begins : reach (leading t.tokens (stopsBy start)) < start) :
    ((t.severed? start stop).toList ++
        (t.toList.dropWhile (stopsBy stop)).map (Token.retreat (stop - start))).head?.map
          Token.tag =
      (t.toList.dropWhile (stopsBy start)).head?.map Token.tag := by
  unfold severed?
  rw [if_pos begins, ← head?_dropWhile (t.partitioned_stopsBy start), t.dropWhile_stopsBy le]
  cases t.toList.dropWhile (stopsBy start) with
  | nil =>
      rfl
  | cons token rest =>
      cases holds : stopsBy stop token with
      | true =>
          simp [Option.filter, holds, Token.cutAt]
      | false =>
          simp [Option.filter, holds, Token.retreat]

theorem tagAt?_cutTokens_before (t : Tiling) {start stop : UInt32} (le : start ≤ stop) {i : Nat}
    (before : i < start.toNat) :
    tagAt? (t.cutTokens start stop).toList i = tagAt? t.toList i := by
  have order := UInt32.le_iff_toNat_le.mp le
  rw [toList_cutTokens, List.append_assoc, tagAt?_append, tagAt?_split t.toList (stopsBy start)]
  cases kept : tagAt? (t.toList.takeWhile (stopsBy start)) i with
  | some tag =>
      rfl
  | none =>
      -- The unit lies in no kept token, so these end before the cut.
      have begins : reach (leading t.tokens (stopsBy start)) < start := by
        have bound := tagAt?_eq_none_iff.mp kept
        rw [UInt32.lt_iff_toNat_lt]
        refine Nat.lt_of_le_of_lt ?_ before
        refine (length_le_iff ⟨leading t.tokens (stopsBy start), ?_⟩ i).mpr ?_
        · rw [toList_leading (t.partitioned_stopsBy start)]
          exact t.ordered.sublist (List.takeWhile_sublist _)
        · rw [toList, toList_leading (t.partitioned_stopsBy start)]
          exact bound
      have later : ∀ token ∈ t.toList.dropWhile (stopsBy start), i < token.stop.toNat := by
        intro token member
        exact Nat.lt_trans before (stop_of_mem_dropWhile member)
      rw [Option.none_or, Option.none_or, tagAt?_eq_head? later, ← head?_severed t le begins]
      apply tagAt?_eq_head?
      intro token member
      cases List.mem_append.mp member with
      | inl cut =>
          rw [stop_of_mem_severed (Option.mem_toList.mp cut)]
          exact before
      | inr moved =>
          obtain ⟨origin, past, rfl⟩ := List.mem_map.mp moved
          have beyond := stop_of_mem_dropWhile past
          rw [toNat_stop_retreat le beyond]
          omega

/-!
## The law
-/

theorem tags_delete {t u : Tiling} {start stop : UInt32}
    (deleted : t.delete start stop = .ok u) :
    u.tags = t.tags.take start.toNat ++ t.tags.drop stop.toNat := by
  rcases delete_cases deleted with ⟨bare, same⟩ | ⟨_, le, bound, outcome⟩
  · rw [same, isEmpty_iff.mp bare]
    simp [tags_empty]
  · have order := UInt32.le_iff_toNat_le.mp le
    have inside := UInt32.le_iff_toNat_le.mp bound
    rw [← length_tags] at inside
    rcases outcome with ⟨equal, same⟩ | ⟨_, first, last, cleared⟩ | ⟨_, _, cut⟩
    · rw [same, equal, List.take_append_drop]
    · rw [cleared, first, last, ← length_tags, List.drop_length]
      rfl
    · apply List.ext_getElem?
      intro i
      have reads : u.tags[i]? = tagAt? (t.cutTokens start stop).toList i := by
        rw [getElem?_tags, toList, cut]
      rw [reads, List.getElem?_append, List.length_take, Nat.min_eq_left (by omega)]
      split
      case isTrue before =>
        rw [tagAt?_cutTokens_before t le before, List.getElem?_take_of_lt before, getElem?_tags]
      case isFalse beyond =>
        rw [tagAt?_cutTokens_after t le (by omega), List.getElem?_drop, getElem?_tags]
        congr 1
        omega

/-!
## How the result begins

A cut neither makes nor removes a hairline, so the line begins as it did unless all of it is
deleted.
-/

theorem severed?_zero (t : Tiling) (stop : UInt32) : t.severed? 0 stop = none := by
  unfold severed?
  rw [if_neg UInt32.not_lt_zero]

theorem exists_hairline_cutTokens (t : Tiling) {start stop : UInt32} (le : start ≤ stop) :
    (∃ token ∈ (t.cutTokens start stop).toList, token.stop = 0) ↔
      ∃ token ∈ t.toList, token.stop = 0 := by
  rw [toList_cutTokens, List.append_assoc]
  constructor
  · intro found
    rcases found with ⟨token, member, zero⟩
    cases List.mem_append.mp member with
    | inl kept =>
        exact ⟨token, (List.takeWhile_sublist _).subset kept, zero⟩
    | inr later =>
        cases List.mem_append.mp later with
        | inl cut =>
            have severed := Option.mem_toList.mp cut
            have first : start = 0 := (stop_of_mem_severed severed).symm.trans zero
            rw [first, severed?_zero] at severed
            cases severed
        | inr moved =>
            obtain ⟨origin, past, rfl⟩ := List.mem_map.mp moved
            have beyond := lt_retreat le (UInt32.lt_iff_toNat_lt.mpr (stop_of_mem_dropWhile past))
            rw [zero] at beyond
            exact absurd beyond UInt32.not_lt_zero
  · intro found
    rcases found with ⟨token, member, zero⟩
    rw [← List.takeWhile_append_dropWhile (p := stopsBy start) (l := t.toList)] at member
    cases List.mem_append.mp member with
    | inl kept =>
        exact ⟨token, List.mem_append_left _ kept, zero⟩
    | inr later =>
        have beyond := stop_of_mem_dropWhile later
        rw [zero, UInt32.toNat_zero] at beyond
        exact absurd beyond (Nat.not_lt_zero _)

theorem isEmpty_delete {t u : Tiling} {start stop : UInt32}
    (deleted : t.delete start stop = .ok u) (nonempty : t.isEmpty = false)
    (part : ¬ (start ≠ stop ∧ start = 0 ∧ stop = t.length)) : u.isEmpty = false := by
  rcases delete_cases deleted with ⟨bare, _⟩ | ⟨_, le, bound, outcome⟩
  · rw [bare] at nonempty
    contradiction
  · rcases outcome with ⟨_, same⟩ | ⟨differ, first, last, _⟩ | ⟨differ, inner, cut⟩
    · rw [same]
      exact nonempty
    · exact absurd ⟨differ, first, last⟩ part
    · cases known : u.isEmpty with
      | false =>
          rfl
      | true =>
          -- Without tags before or after it, the cut is the whole line.
          have law := tags_delete deleted
          rw [isEmpty_iff.mp known, tags_empty, eq_comm, List.append_eq_nil_iff,
            List.take_eq_nil_iff, List.drop_eq_nil_iff, length_tags, tags_eq_nil_iff] at law
          have last : stop = t.length :=
            UInt32.toNat_inj.mp (Nat.le_antisymm (UInt32.le_iff_toNat_le.mp bound) law.2)
          have first : start = 0 := by
            cases law.1 with
            | inl zero =>
                exact UInt32.toNat_inj.mp zero
            | inr zero =>
                rw [last, zero] at le
                exact UInt32.le_zero_iff.mp le
          exact absurd ⟨first, last⟩ inner

theorem hairline_delete {t u : Tiling} {start stop : UInt32}
    (deleted : t.delete start stop = .ok u)
    (part : ¬ (start ≠ stop ∧ start = 0 ∧ stop = t.length)) : u.hairline = t.hairline := by
  rcases delete_cases deleted with ⟨_, same⟩ | ⟨_, le, _, outcome⟩
  · rw [same]
  · rcases outcome with ⟨_, same⟩ | ⟨differ, first, last, _⟩ | ⟨_, _, cut⟩
    · rw [same]
    · exact absurd ⟨differ, first, last⟩ part
    · rw [Bool.eq_iff_iff, hairline_iff, hairline_iff, ← exists_hairline_cutTokens t le, toList,
        cut]

theorem plain_delete {t u : Tiling} {start stop : UInt32} (deleted : t.delete start stop = .ok u)
    (plain : t.hairline = false) : u.hairline = false := by
  rcases delete_cases deleted with ⟨_, same⟩ | ⟨_, _, _, outcome⟩
  · rw [same, plain]
  · rcases outcome with ⟨_, same⟩ | ⟨_, _, _, cleared⟩ | ⟨_, inner, _⟩
    · rw [same, plain]
    · rw [cleared]
      rfl
    · rw [hairline_delete deleted fun whole => inner whole.2, plain]

/-!
## Deletions up to an end of the line

What a deletion leaves of a line that is about to be joined to another.
-/

/-- Nothing is left before a column only if nothing was, or if the column is the first. -/
theorem isEmpty_deleteEnding {t u : Tiling} {column : UInt32}
    (deleted : t.deleteEnding column = .ok u) :
    u.isEmpty = false ↔ t.isEmpty = false ∧ (0 < column ∨ t.length = 0) := by
  rcases delete_cases deleted with ⟨bare, same⟩ | ⟨filled, _, _, outcome⟩
  · rw [same, bare]
    simp
  · rcases outcome with ⟨end', same⟩ | ⟨differ, first, _, cleared⟩ | ⟨_, inner, _⟩
    · rw [same, filled, end', UInt32.pos_iff_ne_zero]
      simp [or_comm, Decidable.em]
    · rw [cleared, first]
      rw [first] at differ
      simp [isEmpty, empty, Ne.symm differ]
    · have left := isEmpty_delete deleted filled fun whole => inner whole.2
      have further : column ≠ 0 := fun zero => inner ⟨zero, rfl⟩
      simp [left, filled, UInt32.pos_iff_ne_zero.mpr further]

theorem hairline_deleteBeginning {t u : Tiling} {column : UInt32}
    (deleted : t.deleteBeginning column = .ok u) :
    u.hairline = true ↔ t.hairline = true ∧ (column = 0 ∨ column < t.length) := by
  rcases delete_cases deleted with ⟨bare, same⟩ | ⟨_, _, bound, outcome⟩
  · rw [same, isEmpty_iff.mp bare]
    simp [hairline, empty, toList]
  · rcases outcome with ⟨zero, same⟩ | ⟨differ, _, last, cleared⟩ | ⟨differ, inner, _⟩
    · rw [same, ← zero]
      simp
    · rw [cleared, last]
      rw [last] at differ
      simp [hairline, empty, toList, Ne.symm differ, UInt32.lt_irrefl]
    · rw [hairline_delete deleted fun whole => inner whole.2]
      have shorter : column < t.length := UInt32.lt_of_le_of_ne bound fun same => inner ⟨rfl, same⟩
      simp [shorter]

end Tiling
end TiledText
