import TiledText.Proofs.Tiling.Tags

/-!
# Insertion and the tags

Making room in a line repeats one tag. Before the room and after it the tags are
what they were. The repeated tag is that of the code unit before the room, and at
the beginning of the line that of the first token, even if it is a hairline.

The empty tiling has no tag to repeat and passes through, so the laws for what
stands before and after the room hold of it as well.
-/

namespace TiledText

attribute [ext] Tiling

namespace Tiling

/-!
## When an insertion succeeds
-/

theorem insert_eq_ok (t : Tiling) {offset width : UInt32} (inside : offset ≤ t.length)
    (fits : Fits t.length width) : ∃ u, t.insert offset width = .ok u := by
  unfold insert
  rw [if_neg (UInt32.not_lt.mpr inside), dif_pos fits]
  split
  · exact ⟨_, rfl⟩
  · split
    · exact ⟨_, rfl⟩
    · exact ⟨_, rfl⟩

theorem insert_cases {t u : Tiling} {offset width : UInt32}
    (inserted : t.insert offset width = .ok u) :
    (t.isEmpty = true ∧ u = t) ∨
      (t.isEmpty = false ∧ offset ≤ t.length ∧
        ((width = 0 ∧ u = t) ∨
          (Fits t.length width ∧ u.tokens = t.widenTokens offset width))) := by
  unfold insert at inserted
  split at inserted
  case isTrue bare =>
    cases inserted
    exact Or.inl ⟨bare, rfl⟩
  case isFalse filled =>
    have nonempty : t.isEmpty = false := by simpa using filled
    split at inserted
    case isTrue outside =>
      cases inserted
    case isFalse inside =>
      refine Or.inr ⟨nonempty, UInt32.not_lt.mp inside, ?_⟩
      split at inserted
      case isTrue zero =>
        cases inserted
        exact Or.inl ⟨zero, rfl⟩
      case isFalse wide =>
        split at inserted
        case isTrue fits =>
          cases inserted
          exact Or.inr ⟨fits, rfl⟩
        case isFalse long =>
          cases inserted

theorem widenTokens_empty (offset width : UInt32) :
    empty.widenTokens offset width = empty.tokens := by
  apply Array.toList_inj.mp
  rw [toList_widenTokens]
  rfl

theorem widenTokens_zero (t : Tiling) (offset : UInt32) : t.widenTokens offset 0 = t.tokens := by
  have still : Token.grow 0 = id := by
    funext token
    rw [Token.grow, UInt32.add_zero]
    rfl
  apply Array.toList_inj.mp
  rw [toList_widenTokens, still, List.map_id, List.takeWhile_append_dropWhile]
  rfl

theorem tokens_insert {t u : Tiling} {offset width : UInt32}
    (inserted : t.insert offset width = .ok u) : u.tokens = t.widenTokens offset width := by
  rcases insert_cases inserted with ⟨bare, same⟩ | ⟨_, _, ⟨zero, same⟩ | ⟨_, wider⟩⟩
  · rw [same, isEmpty_iff.mp bare, widenTokens_empty]
  · rw [same, zero, widenTokens_zero]
  · exact wider

theorem insert_eq_ok_iff {t u : Tiling} {offset width : UInt32} (inside : offset ≤ t.length)
    (fits : Fits t.length width) :
    t.insert offset width = .ok u ↔ u.tokens = t.widenTokens offset width := by
  constructor
  · exact tokens_insert
  · intro wider
    rcases t.insert_eq_ok inside fits with ⟨v, inserted⟩
    have same : v = u := Tiling.ext ((tokens_insert inserted).trans wider.symm)
    rw [← same]
    exact inserted

/-!
## The tag that grows
-/

/--
The tag that text inserted at an offset takes: that of the code unit before it,
and at the beginning of the line that of the first token.
-/
def tagBefore? (t : Tiling) : Nat → Option UInt32
  | 0 => t.toList.head?.map Token.tag
  | offset + 1 => t.tags[offset]?

theorem tagBefore?_isSome {t : Tiling} {offset : Nat} (nonempty : t.isEmpty = false)
    (inside : offset ≤ t.length.toNat) : ∃ tag, t.tagBefore? offset = some tag := by
  cases offset with
  | zero =>
      cases list : t.toList with
      | nil =>
          exact absurd list (toList_ne_nil nonempty)
      | cons first rest =>
          exact ⟨first.tag, by simp [tagBefore?, list]⟩
  | succ before =>
      rw [← length_tags] at inside
      exact ⟨t.tags[before], List.getElem?_eq_getElem inside⟩

/-- Without a hairline the first token holds the first code unit. -/
theorem tagBefore?_eq {t : Tiling} (plain : t.hairline = false) (offset : Nat) :
    t.tagBefore? offset = t.tags[offset - 1]? := by
  cases offset with
  | zero =>
      have wide : ∀ token ∈ t.toList, 0 < token.stop.toNat := by
        intro token member
        exact Nat.pos_of_ne_zero (stop_ne_zero plain member)
      rw [tagBefore?, getElem?_tags, tagAt?_eq_head? wide]
  | succ before =>
      rfl

theorem stop_of_mem_takeWhile_stopsBefore {tokens : List Token} {offset : UInt32} {token : Token}
    (member : token ∈ tokens.takeWhile (stopsBefore offset)) :
    token.stop.toNat < offset.toNat := by
  have holds := List.all_eq_true.mp List.all_takeWhile _ member
  simpa [stopsBefore, UInt32.lt_iff_toNat_lt] using holds

theorem stop_of_mem_dropWhile_stopsBefore {t : Tiling} {offset : UInt32} {token : Token}
    (member : token ∈ t.toList.dropWhile (stopsBefore offset)) :
    offset.toNat ≤ token.stop.toNat := by
  have fails := not_of_mem_dropWhile (t.partitioned_stopsBefore offset) member
  simpa [stopsBefore, UInt32.le_iff_toNat_le] using fails

theorem head?_dropWhile_stopsBefore (t : Tiling) (offset : UInt32) :
    (t.toList.dropWhile (stopsBefore offset)).head?.map Token.tag =
      t.tagBefore? offset.toNat := by
  cases index : offset.toNat with
  | zero =>
      have zero : offset = 0 := UInt32.toNat_inj.mp index
      rw [tagBefore?]
      cases t.toList with
      | nil =>
          rfl
      | cons first rest =>
          rw [List.dropWhile_cons_of_neg (by simp [stopsBefore, zero])]
  | succ before =>
      have kept : tagAt? (t.toList.takeWhile (stopsBefore offset)) before = none := by
        apply tagAt?_eq_none_iff.mpr
        intro token member
        have early := stop_of_mem_takeWhile_stopsBefore member
        omega
      have past : ∀ token ∈ t.toList.dropWhile (stopsBefore offset),
          before < token.stop.toNat := by
        intro token member
        have late := stop_of_mem_dropWhile_stopsBefore member
        omega
      rw [tagBefore?, getElem?_tags, tagAt?_split t.toList (stopsBefore offset), kept,
        Option.none_or, tagAt?_eq_head? past]

/-!
## The tokens of a wider line

Code units on either side of the room keep their tags. Those of the room all have the tag of
the token that widened.
-/

theorem stop_grow_of_mem {t : Tiling} {width : UInt32} (fits : Fits t.length width)
    {p : Token → Bool} {token : Token} (member : token ∈ t.toList.dropWhile p) :
    (token.grow width).stop.toNat = token.stop.toNat + width.toNat := by
  have inside := (List.dropWhile_sublist p).subset member
  exact toNat_stop_grow fits (t.stop_le_length (Array.mem_def.mpr inside))

theorem tagAt?_widenTokens_before (t : Tiling) {offset width : UInt32}
    (fits : Fits t.length width) {i : Nat} (before : i < offset.toNat) :
    tagAt? (t.widenTokens offset width).toList i = tagAt? t.toList i := by
  have moved : tagAt? ((t.toList.dropWhile (stopsBefore offset)).map (Token.grow width)) i =
      tagAt? (t.toList.dropWhile (stopsBefore offset)) i := by
    refine tagAt?_map (fun token => rfl) ?_
    intro token member
    have late := stop_of_mem_dropWhile_stopsBefore member
    rw [stop_grow_of_mem fits member]
    omega
  rw [toList_widenTokens, tagAt?_append, moved, ← tagAt?_split]

theorem tagAt?_widenTokens_of_le (t : Tiling) {offset width : UInt32} {i : Nat}
    (le : offset.toNat ≤ i) :
    tagAt? (t.widenTokens offset width).toList i =
      tagAt? ((t.toList.dropWhile (stopsBefore offset)).map (Token.grow width)) i := by
  have kept : tagAt? (t.toList.takeWhile (stopsBefore offset)) i = none := by
    apply tagAt?_eq_none_iff.mpr
    intro token member
    have early := stop_of_mem_takeWhile_stopsBefore member
    omega
  rw [toList_widenTokens, tagAt?_append, kept, Option.none_or]

theorem tagAt?_widenTokens_inside (t : Tiling) {offset width : UInt32}
    (fits : Fits t.length width) {i : Nat} (le : offset.toNat ≤ i)
    (lt : i < offset.toNat + width.toNat) :
    tagAt? (t.widenTokens offset width).toList i = t.tagBefore? offset.toNat := by
  have past : ∀ token ∈ (t.toList.dropWhile (stopsBefore offset)).map (Token.grow width),
      i < token.stop.toNat := by
    intro token member
    obtain ⟨origin, inside, rfl⟩ := List.mem_map.mp member
    have late := stop_of_mem_dropWhile_stopsBefore inside
    rw [stop_grow_of_mem fits inside]
    omega
  rw [tagAt?_widenTokens_of_le t le, tagAt?_eq_head? past, ← head?_dropWhile_stopsBefore]
  cases t.toList.dropWhile (stopsBefore offset) with
  | nil =>
      rfl
  | cons first rest =>
      rfl

theorem tagAt?_widenTokens_after (t : Tiling) {offset width : UInt32}
    (fits : Fits t.length width) {i : Nat} (le : offset.toNat ≤ i) :
    tagAt? (t.widenTokens offset width).toList (i + width.toNat) = tagAt? t.toList i := by
  have moved : tagAt? ((t.toList.dropWhile (stopsBefore offset)).map (Token.grow width))
      (i + width.toNat) = tagAt? (t.toList.dropWhile (stopsBefore offset)) i := by
    refine tagAt?_map (fun token => rfl) ?_
    intro token member
    rw [stop_grow_of_mem fits member]
    omega
  have kept : tagAt? (t.toList.takeWhile (stopsBefore offset)) i = none := by
    apply tagAt?_eq_none_iff.mpr
    intro token member
    have early := stop_of_mem_takeWhile_stopsBefore member
    omega
  rw [tagAt?_widenTokens_of_le t (by omega), moved, tagAt?_split t.toList (stopsBefore offset),
    kept, Option.none_or]

/-!
## The laws
-/

theorem tags_insert {t u : Tiling} {offset width : UInt32}
    (inserted : t.insert offset width = .ok u) (nonempty : t.isEmpty = false) :
    ∃ tag, t.tagBefore? offset.toNat = some tag ∧
      u.tags = t.tags.take offset.toNat ++ List.replicate width.toNat tag ++
        t.tags.drop offset.toNat := by
  rcases insert_cases inserted with ⟨bare, _⟩ | ⟨_, inside, outcome⟩
  · rw [bare] at nonempty
    cases nonempty
  · have bound := UInt32.le_iff_toNat_le.mp inside
    rcases tagBefore?_isSome nonempty bound with ⟨tag, found⟩
    refine ⟨tag, found, ?_⟩
    rcases outcome with ⟨zero, same⟩ | ⟨fits, wider⟩
    · rw [same, zero, UInt32.toNat_zero, List.replicate_zero, List.append_nil,
        List.take_append_drop]
    · rw [← length_tags] at bound
      apply List.ext_getElem?
      intro i
      have reads : u.tags[i]? = tagAt? (t.widenTokens offset width).toList i := by
        rw [getElem?_tags, toList, wider]
      rw [reads, List.append_assoc, List.getElem?_append, List.length_take, Nat.min_eq_left bound]
      split
      case isTrue before =>
        rw [tagAt?_widenTokens_before t fits before, List.getElem?_take_of_lt before,
          getElem?_tags]
      case isFalse beyond =>
        have le := Nat.le_of_not_lt beyond
        rw [List.getElem?_append, List.length_replicate]
        split
        case isTrue room =>
          rw [tagAt?_widenTokens_inside t fits le (by omega), found,
            List.getElem?_replicate_of_lt room]
        case isFalse after =>
          have back : i = i - width.toNat + width.toNat := by omega
          rw [back, tagAt?_widenTokens_after t fits (by omega), ← back, List.getElem?_drop,
            getElem?_tags]
          congr 1
          omega

theorem length_insert {t u : Tiling} {offset width : UInt32}
    (inserted : t.insert offset width = .ok u) (nonempty : t.isEmpty = false) :
    u.length.toNat = t.length.toNat + width.toNat := by
  rcases tags_insert inserted nonempty with ⟨tag, _, law⟩
  have parts := congrArg List.length (List.take_append_drop offset.toNat t.tags)
  rw [List.length_append] at parts
  rw [← length_tags, ← length_tags, law, ← parts, List.length_append, List.length_append,
    List.length_replicate, Nat.add_right_comm]

theorem take_tags_insert {t u : Tiling} {offset width : UInt32}
    (inserted : t.insert offset width = .ok u) :
    u.tags.take offset.toNat = t.tags.take offset.toNat := by
  rcases insert_cases inserted with ⟨_, same⟩ | ⟨nonempty, inside, _⟩
  · rw [same]
  · rcases tags_insert inserted nonempty with ⟨tag, _, law⟩
    have bound := UInt32.le_iff_toNat_le.mp inside
    rw [← length_tags] at bound
    rw [law, List.append_assoc, List.take_append_of_le_length (by simp [bound]),
      List.take_take, Nat.min_self]

theorem drop_tags_insert {t u : Tiling} {offset width : UInt32}
    (inserted : t.insert offset width = .ok u) :
    u.tags.drop (offset.toNat + width.toNat) = t.tags.drop offset.toNat := by
  rcases insert_cases inserted with ⟨bare, same⟩ | ⟨nonempty, inside, _⟩
  · rw [same, isEmpty_iff.mp bare, tags_empty, List.drop_nil, List.drop_nil]
  · rcases tags_insert inserted nonempty with ⟨tag, _, law⟩
    have bound := UInt32.le_iff_toNat_le.mp inside
    rw [← length_tags] at bound
    rw [law]
    apply List.drop_left'
    simp [bound]

/-!
## Making room twice

Room made at the end of earlier room is made in the token that widened before, so
both can be made at once.
-/

theorem toNat_add_of_fits {limit offset width : UInt32} (inside : offset ≤ limit)
    (fits : Fits limit width) : (offset + width).toNat = offset.toNat + width.toNat := by
  have bound := UInt32.le_iff_toNat_le.mp inside
  rw [UInt32.toNat_add]
  exact Nat.mod_eq_of_lt (Nat.lt_of_le_of_lt (Nat.add_le_add_right bound _) fits)

theorem split_of_widenTokens {t : Tiling} {offset width : UInt32} (inside : offset ≤ t.length)
    (fits : Fits t.length width) :
    (t.widenTokens offset width).toList.takeWhile (stopsBefore (offset + width)) =
        t.toList.takeWhile (stopsBefore offset) ∧
      (t.widenTokens offset width).toList.dropWhile (stopsBefore (offset + width)) =
        (t.toList.dropWhile (stopsBefore offset)).map (Token.grow width) := by
  have target := toNat_add_of_fits inside fits
  have early : ∀ token ∈ t.toList.takeWhile (stopsBefore offset),
      stopsBefore (offset + width) token = true := by
    intro token member
    have stop := stop_of_mem_takeWhile_stopsBefore member
    simp only [stopsBefore, decide_eq_true_eq, UInt32.lt_iff_toNat_lt]
    omega
  rw [toList_widenTokens, List.takeWhile_append_of_pos early, List.dropWhile_append_of_pos early]
  cases shape : t.toList.dropWhile (stopsBefore offset) with
  | nil =>
      simp
  | cons first rest =>
      have member : first ∈ t.toList.dropWhile (stopsBefore offset) := by simp [shape]
      have stop := stop_of_mem_dropWhile_stopsBefore member
      have grown := stop_grow_of_mem fits member
      have late : ¬ stopsBefore (offset + width) (first.grow width) = true := by
        simp only [stopsBefore, decide_eq_true_eq, UInt32.lt_iff_toNat_lt]
        omega
      simp [late]

theorem widenTokens_widenTokens {t u : Tiling} {offset first second : UInt32}
    (inside : offset ≤ t.length) (fits : Fits t.length first)
    (wider : u.tokens = t.widenTokens offset first) :
    u.widenTokens (offset + first) second = t.widenTokens offset (first + second) := by
  rcases split_of_widenTokens inside fits with ⟨before, after⟩
  have twice : Token.grow second ∘ Token.grow first = Token.grow (first + second) := by
    funext token
    simp [Token.grow, UInt32.add_assoc]
  apply Array.toList_inj.mp
  rw [toList_widenTokens, toList_widenTokens, toList, wider, before, after, List.map_map, twice]

end Tiling
end TiledText
