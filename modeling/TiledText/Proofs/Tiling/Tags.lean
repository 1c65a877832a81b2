import TiledText.Tiling.Edit

/-!
# Tags, code unit by code unit

What a tiling says about its line is one tag for each code unit. This module
reads the tags off the spans and proves that they are those of a search: the
code unit at an offset has the tag of the first token that stops after it.

The search is the easier form. A list of tokens that is put together from others
is searched part by part, so an edit of the tokens turns into an edit of the tags
without looking at any span.
-/

namespace TiledText

namespace Span

def tags (span : Span) : List UInt32 :=
  List.replicate (span.stop.toNat - span.start.toNat) span.tag

end Span

namespace Tiling

def tags (t : Tiling) : List UInt32 :=
  t.spans.flatMap Span.tags

/-!
## Searching tokens for the tag of a code unit
-/

/-- The tag of the first token that stops after the code unit at `offset`. -/
def tagAt? (tokens : List Token) (offset : Nat) : Option UInt32 :=
  (tokens.find? fun token => offset < token.stop.toNat).map Token.tag

theorem tagAt?_append (before after : List Token) (offset : Nat) :
    tagAt? (before ++ after) offset = (tagAt? before offset).or (tagAt? after offset) := by
  unfold tagAt?
  rw [List.find?_append, Option.map_or]

theorem tagAt?_eq_none_iff {tokens : List Token} {offset : Nat} :
    tagAt? tokens offset = none ↔ ∀ token ∈ tokens, token.stop.toNat ≤ offset := by
  unfold tagAt?
  rw [Option.map_eq_none_iff, List.find?_eq_none]
  simp

theorem tagAt?_eq_head? {tokens : List Token} {offset : Nat}
    (past : ∀ token ∈ tokens, offset < token.stop.toNat) :
    tagAt? tokens offset = tokens.head?.map Token.tag := by
  cases tokens with
  | nil =>
      rfl
  | cons token rest =>
      have first := past token (List.mem_cons_self ..)
      simp [tagAt?, first]

theorem tagAt?_map {change : Token → Token} {tokens : List Token} {offset origin : Nat}
    (keeps : ∀ token, (change token).tag = token.tag)
    (moves : ∀ token ∈ tokens,
      (offset < (change token).stop.toNat ↔ origin < token.stop.toNat)) :
    tagAt? (tokens.map change) offset = tagAt? tokens origin := by
  induction tokens with
  | nil =>
      rfl
  | cons token rest ih =>
      have later := ih fun other member => moves other (List.mem_cons_of_mem _ member)
      have first := moves token (List.mem_cons_self ..)
      unfold tagAt? at later ⊢
      by_cases holds : origin < token.stop.toNat
      · simp [holds, first.mpr holds, keeps]
      · have fails : ¬ offset < (change token).stop.toNat := fun h => holds (first.mp h)
        simpa [holds, fails] using later

theorem tagAt?_split (tokens : List Token) (p : Token → Bool) (i : Nat) :
    tagAt? tokens i = (tagAt? (tokens.takeWhile p) i).or (tagAt? (tokens.dropWhile p) i) := by
  rw [← tagAt?_append, List.takeWhile_append_dropWhile]

/-!
## The tags of a tiling are those of the search
-/

theorem getElem?_tags_spansFrom {start : UInt32} {tokens : List Token}
    (increasing : Increasing tokens) (after : ∀ token ∈ tokens, start ≤ token.stop)
    (i : Nat) :
    ((spansFrom start tokens).flatMap Span.tags)[i]? = tagAt? tokens (start.toNat + i) := by
  induction tokens generalizing start i with
  | nil =>
      rfl
  | cons token rest ih =>
      have split := List.pairwise_cons.mp increasing
      have forward := UInt32.le_iff_toNat_le.mp (after token (List.mem_cons_self ..))
      have later := ih split.2 (fun other member => UInt32.le_of_lt (split.1 other member))
        (i - (token.stop.toNat - start.toNat))
      rw [spansFrom, List.flatMap_cons, List.getElem?_append]
      by_cases inside : start.toNat + i < token.stop.toNat
      · have short : i < token.stop.toNat - start.toNat := by omega
        simp [Span.tags, tagAt?, inside, short]
      · have long : ¬ i < token.stop.toNat - start.toNat := by omega
        have same : token.stop.toNat + (i - (token.stop.toNat - start.toNat)) =
            start.toNat + i := by omega
        rw [same] at later
        rw [if_neg (by simpa [Span.tags] using long)]
        simpa [Span.tags, tagAt?, inside] using later

theorem getElem?_tags (t : Tiling) (i : Nat) : t.tags[i]? = tagAt? t.toList i := by
  have read : t.tags[i]? = tagAt? t.toList ((0 : UInt32).toNat + i) :=
    getElem?_tags_spansFrom t.ordered (fun _ _ => UInt32.le_iff_toNat_le.mpr (Nat.zero_le _)) i
  rw [UInt32.toNat_zero, Nat.zero_add] at read
  exact read

theorem length_le_iff (t : Tiling) (n : Nat) :
    t.length.toNat ≤ n ↔ ∀ token ∈ t.toList, token.stop.toNat ≤ n := by
  constructor
  · intro bound token member
    have stop := t.stop_le_length (Array.mem_def.mpr member)
    exact Nat.le_trans (UInt32.le_iff_toNat_le.mp stop) bound
  · intro all
    unfold length reach
    cases last : t.tokens.back? with
    | none =>
        exact Nat.zero_le _
    | some token =>
        exact all token (Array.mem_def.mp (Array.mem_of_back? last))

theorem length_tags (t : Tiling) : t.tags.length = t.length.toNat := by
  have same : ∀ n, t.tags.length ≤ n ↔ t.length.toNat ≤ n := by
    intro n
    rw [← List.getElem?_eq_none_iff, getElem?_tags, tagAt?_eq_none_iff, length_le_iff]
  exact Nat.le_antisymm ((same _).mpr (Nat.le_refl _)) ((same _).mp (Nat.le_refl _))

theorem tags_empty : empty.tags = [] :=
  rfl

theorem tags_eq_nil_iff (t : Tiling) : t.tags = [] ↔ t.length = 0 := by
  rw [← List.length_eq_zero_iff, length_tags]
  constructor
  · intro zero
    exact UInt32.toNat_inj.mp zero
  · intro zero
    rw [zero]
    rfl

/-!
## Searching around an offset
-/

theorem stop_of_mem_takeWhile {tokens : List Token} {offset : UInt32} {token : Token}
    (member : token ∈ tokens.takeWhile (stopsBy offset)) :
    token.stop.toNat ≤ offset.toNat := by
  have holds := List.all_eq_true.mp List.all_takeWhile _ member
  simpa [stopsBy, UInt32.le_iff_toNat_le] using holds

theorem stop_of_mem_dropWhile {t : Tiling} {offset : UInt32} {token : Token}
    (member : token ∈ t.toList.dropWhile (stopsBy offset)) :
    offset.toNat < token.stop.toNat := by
  have fails := not_of_mem_dropWhile (t.partitioned_stopsBy offset) member
  simpa [stopsBy, UInt32.lt_iff_toNat_lt] using fails

/-- A search past `offset` may leave out the tokens that stop there or before. -/
theorem tagAt?_dropWhile (t : Tiling) {offset : UInt32} {i : Nat} (le : offset.toNat ≤ i) :
    tagAt? (t.toList.dropWhile (stopsBy offset)) i = tagAt? t.toList i := by
  have before : tagAt? (t.toList.takeWhile (stopsBy offset)) i = none := by
    apply tagAt?_eq_none_iff.mpr
    intro token member
    exact Nat.le_trans (stop_of_mem_takeWhile member) le
  rw [tagAt?_split t.toList (stopsBy offset), before, Option.none_or]

/-!
## Hairlines

A tiling may begin with a token of width zero, a hairline. No code unit has its
tag, but it decides two things: text inserted at the beginning of the line takes
its tag, and such a tiling cannot be joined to the end of another.
-/

/-- The first token has width zero. -/
def hairline (t : Tiling) : Bool :=
  t.toList.head?.any fun token => token.stop == 0

theorem isEmpty_iff {t : Tiling} : t.isEmpty = true ↔ t = empty := by
  constructor
  · intro bare
    cases t with
    | mk tokens ordered =>
        have same : tokens = #[] := Array.isEmpty_iff.mp bare
        subst same
        rfl
  · intro same
    rw [same]
    rfl

theorem toList_ne_nil {t : Tiling} (nonempty : t.isEmpty = false) : t.toList ≠ [] := by
  intro vacant
  have same : t.tokens = #[] := Array.toList_eq_nil_iff.mp vacant
  simp [isEmpty, same] at nonempty

theorem isEmpty_of_length_eq_zero {t : Tiling} (plain : t.hairline = false)
    (zero : t.length = 0) : t.isEmpty = true := by
  cases known : t.isEmpty with
  | true =>
      rfl
  | false =>
      cases list : t.toList with
      | nil =>
          exact absurd list (toList_ne_nil known)
      | cons first rest =>
          have bound := (length_le_iff t 0).mp (by simp [zero]) first (by simp [list])
          have stops : first.stop = 0 := UInt32.toNat_inj.mp (Nat.le_zero.mp bound)
          simp [hairline, list, stops] at plain

theorem hairline_iff {t : Tiling} : t.hairline = true ↔ ∃ token ∈ t.toList, token.stop = 0 := by
  unfold hairline
  cases list : t.toList with
  | nil =>
      simp
  | cons first rest =>
      constructor
      · intro zero
        exact ⟨first, List.mem_cons_self .., by simpa using zero⟩
      · intro found
        rcases found with ⟨token, member, zero⟩
        cases List.mem_cons.mp member with
        | inl same =>
            simpa [← same] using zero
        | inr later =>
            have ordered : Increasing (first :: rest) := list ▸ t.ordered
            have step := (List.pairwise_cons.mp ordered).1 token later
            rw [zero] at step
            exact absurd step (UInt32.not_lt.mpr (UInt32.le_iff_toNat_le.mpr (Nat.zero_le _)))

theorem stop_ne_zero {t : Tiling} (plain : t.hairline = false) {token : Token}
    (member : token ∈ t.toList) : token.stop.toNat ≠ 0 := by
  intro zero
  have found := hairline_iff.mpr ⟨token, member, UInt32.toNat_inj.mp zero⟩
  rw [plain] at found
  cases found

end Tiling
end TiledText
