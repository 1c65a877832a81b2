import TiledText.Tiling.Basic

/-!
# Editing a tiling

When text is removed from a line, inserted into it, or joined to its end, the
tokens follow. Removal shortens the tokens it reaches into and drops those it
swallows. Insertion widens one token. Joining lays the second line's tokens
after those of the first.

Each operation refuses arguments that do not fit the line, and otherwise returns
a tiling of the edited line. The view lemmas `toList_cutTokens` and
`toList_widenTokens` give the resulting tokens as lists.
-/

namespace TiledText
namespace Tiling

/-!
## Removing a stretch
-/

/--
The token in which a cut begins, ended at the cut. There is none when the cut
begins between two tokens, and none when that token also reaches past the cut,
for then it only becomes shorter.
-/
def severed? (t : Tiling) (start stop : UInt32) : Option Token :=
  if reach (leading t.tokens (stopsBy start)) < start then
    (t.tokens[partitionPoint t.tokens (stopsBy start)]?.filter (stopsBy stop)).map
      (Token.cutAt start)
  else
    none

/-- The tokens of a line from which the units `start`, …, `stop - 1` are taken out. -/
def cutTokens (t : Tiling) (start stop : UInt32) : Array Token :=
  leading t.tokens (stopsBy start) ++ (t.severed? start stop).toArray ++
    (trailing t.tokens (stopsBy stop)).map (Token.retreat (stop - start))

theorem toList_cutTokens (t : Tiling) (start stop : UInt32) :
    (t.cutTokens start stop).toList =
      t.toList.takeWhile (stopsBy start) ++ (t.severed? start stop).toList ++
        (t.toList.dropWhile (stopsBy stop)).map (Token.retreat (stop - start)) := by
  simp [cutTokens, toList, toList_leading (t.partitioned_stopsBy start),
    toList_trailing (t.partitioned_stopsBy stop)]

/-!
The result is ordered because the kept tokens stop at or before the cut, the
severed token stops right at it, and the shifted tokens stop after it.
-/

theorem stop_of_mem_severed {t : Tiling} {start stop : UInt32} {token : Token}
    (member : token ∈ t.severed? start stop) : token.stop = start := by
  unfold severed? at member
  split at member
  · obtain ⟨_, _, rfl⟩ := Option.map_eq_some_iff.mp member
    rfl
  · contradiction

theorem stop_lt_of_mem_severed {t : Tiling} {start stop : UInt32} {kept token : Token}
    (member : token ∈ t.severed? start stop)
    (before : kept ∈ t.toList.takeWhile (stopsBy start)) : kept.stop < start := by
  unfold severed? at member
  split at member
  case isTrue begins =>
    rw [toList, ← toList_leading (t.partitioned_stopsBy start)] at before
    refine UInt32.lt_of_le_of_lt (stop_le_reach ?_ (Array.mem_def.mpr before)) begins
    rw [toList_leading (t.partitioned_stopsBy start)]
    exact t.ordered.sublist (List.takeWhile_sublist _)
  case isFalse =>
    contradiction

theorem retreat_lt_retreat {width : UInt32} {a b : Token} (fits : width ≤ a.stop)
    (lt : a.stop < b.stop) : (a.retreat width).stop < (b.retreat width).stop := by
  have wider : width ≤ b.stop := UInt32.le_trans fits (UInt32.le_of_lt lt)
  rw [UInt32.lt_iff_toNat_lt] at *
  simp only [Token.retreat, UInt32.toNat_sub_of_le _ _ fits, UInt32.toNat_sub_of_le _ _ wider]
  rw [UInt32.le_iff_toNat_le] at *
  omega

theorem lt_retreat {start stop : UInt32} {token : Token} (le : start ≤ stop)
    (lt : stop < token.stop) : start < (token.retreat (stop - start)).stop := by
  have width := UInt32.toNat_sub_of_le _ _ le
  rw [UInt32.lt_iff_toNat_lt, UInt32.le_iff_toNat_le] at *
  simp only [Token.retreat]
  rw [UInt32.toNat_sub_of_le _ _ (UInt32.le_iff_toNat_le.mpr (by omega)), width]
  omega

theorem increasing_cutTokens (t : Tiling) {start stop : UInt32} (le : start ≤ stop) :
    Increasing (t.cutTokens start stop).toList := by
  rw [toList_cutTokens, List.append_assoc]
  have past : ∀ token ∈ t.toList.dropWhile (stopsBy stop), stop < token.stop := by
    intro token member
    have fails := not_of_mem_dropWhile (t.partitioned_stopsBy stop) member
    simpa [stopsBy] using fails
  have upTo : ∀ token ∈ t.toList.takeWhile (stopsBy start), token.stop ≤ start := by
    intro token member
    simpa [stopsBy] using List.all_eq_true.mp List.all_takeWhile _ member
  have narrow : stop - start ≤ stop := by
    rw [UInt32.le_iff_toNat_le, UInt32.toNat_sub_of_le _ _ le]
    omega
  refine List.pairwise_append.mpr ⟨?_, List.pairwise_append.mpr ⟨?_, ?_, ?_⟩, ?_⟩
  · exact t.ordered.sublist (List.takeWhile_sublist _)
  · cases t.severed? start stop with
    | none =>
        simp
    | some token =>
        simp
  · refine List.pairwise_map.mpr ?_
    have rest := t.ordered.sublist (List.dropWhile_sublist (stopsBy stop))
    refine rest.imp_of_mem ?_
    intro a b left _ lt
    exact retreat_lt_retreat (UInt32.le_trans narrow (UInt32.le_of_lt (past a left))) lt
  · intro a left b right
    obtain ⟨c, member, rfl⟩ := List.mem_map.mp right
    rw [stop_of_mem_severed (by simpa using left)]
    exact lt_retreat le (past c member)
  · intro a left b right
    cases List.mem_append.mp right with
    | inl cut =>
        have member : b ∈ t.severed? start stop := by simpa using cut
        rw [stop_of_mem_severed member]
        exact stop_lt_of_mem_severed member left
    | inr shifted =>
        obtain ⟨c, member, rfl⟩ := List.mem_map.mp shifted
        exact UInt32.lt_of_le_of_lt (upTo a left) (lt_retreat le (past c member))

/--
Takes the units from `start` up to `stop` out of the line. An empty tiling has
no offsets to keep in step and passes through whatever the range. Taking out the
whole line leaves the empty tiling.
-/
def delete (t : Tiling) (start stop : UInt32) : Except TilingError Tiling :=
  if t.isEmpty then
    .ok t
  else if range : start ≤ stop ∧ stop ≤ t.length then
    if start = stop then
      .ok t
    else if start = 0 ∧ stop = t.length then
      .ok empty
    else
      .ok ⟨t.cutTokens start stop, t.increasing_cutTokens range.1⟩
  else
    .error (.rangeOutside start stop t.length)

def deleteBeginning (t : Tiling) (stop : UInt32) : Except TilingError Tiling :=
  t.delete 0 stop

def deleteEnding (t : Tiling) (start : UInt32) : Except TilingError Tiling :=
  t.delete start t.length

/-!
## Inserting a stretch
-/

/--
The tokens of a line that grows by `width` units at `offset`. The token that
holds the unit before `offset` widens, at the beginning of the line the first
token, and all later tokens move along.
-/
def widenTokens (t : Tiling) (offset width : UInt32) : Array Token :=
  leading t.tokens (stopsBefore offset) ++
    (trailing t.tokens (stopsBefore offset)).map (Token.grow width)

theorem toList_widenTokens (t : Tiling) (offset width : UInt32) :
    (t.widenTokens offset width).toList =
      t.toList.takeWhile (stopsBefore offset) ++
        (t.toList.dropWhile (stopsBefore offset)).map (Token.grow width) := by
  simp [widenTokens, toList, toList_leading (t.partitioned_stopsBefore offset),
    toList_trailing (t.partitioned_stopsBefore offset)]

def Fits (length width : UInt32) : Prop :=
  length.toNat + width.toNat < UInt32.size

instance (length width : UInt32) : Decidable (Fits length width) :=
  inferInstanceAs (Decidable (_ < _))

theorem toNat_stop_grow {length width : UInt32} (fits : Fits length width) {token : Token}
    (le : token.stop ≤ length) :
    (token.grow width).stop.toNat = token.stop.toNat + width.toNat := by
  rw [UInt32.le_iff_toNat_le] at le
  simp only [Fits, UInt32.size] at fits
  simp only [Token.grow, UInt32.toNat_add]
  omega

theorem increasing_widenTokens (t : Tiling) {offset width : UInt32}
    (fits : Fits t.length width) : Increasing (t.widenTokens offset width).toList := by
  rw [toList_widenTokens]
  have bound : ∀ token ∈ t.toList.dropWhile (stopsBefore offset),
      (token.grow width).stop.toNat = token.stop.toNat + width.toNat := by
    intro token member
    have inside := (List.dropWhile_sublist (stopsBefore offset)).subset member
    exact toNat_stop_grow fits (t.stop_le_length (Array.mem_def.mpr inside))
  have whole := t.ordered
  rw [← List.takeWhile_append_dropWhile (p := stopsBefore offset) (l := t.tokens.toList)] at whole
  have split := List.pairwise_append.mp whole
  refine List.pairwise_append.mpr ⟨split.1, ?_, ?_⟩
  · refine List.pairwise_map.mpr (split.2.1.imp_of_mem ?_)
    intro a b left right lt
    rw [UInt32.lt_iff_toNat_lt] at *
    rw [bound a left, bound b right]
    omega
  · intro a left b right
    obtain ⟨c, member, rfl⟩ := List.mem_map.mp right
    have lt := split.2.2 a left c member
    rw [UInt32.lt_iff_toNat_lt] at *
    rw [bound c member]
    omega

/--
Makes room for `width` units at `offset`. An empty tiling has no token that
could widen and passes through.
-/
def insert (t : Tiling) (offset width : UInt32) : Except TilingError Tiling :=
  if t.isEmpty then
    .ok t
  else if t.length < offset then
    .error (.rangeOutside offset offset t.length)
  else if width = 0 then
    .ok t
  else if fits : Fits t.length width then
    .ok ⟨t.widenTokens offset width, t.increasing_widenTokens fits⟩
  else
    .error (.overflow t.length width)

/-!
## Joining two lines
-/

def joinTokens (t u : Tiling) : Array Token :=
  t.tokens ++ u.tokens.map (Token.grow t.length)

/--
Lays the tokens of `u` after those of `t`. This fails when `u` begins with a
token of width zero, because that token would stop where `t` does.
-/
def append (t u : Tiling) : Except TilingError Tiling :=
  if u.isEmpty then
    .ok t
  else if t.isEmpty then
    .ok u
  else if Fits t.length u.length then
    ofTokens (t.joinTokens u)
  else
    .error (.overflow t.length u.length)

end Tiling
end TiledText
