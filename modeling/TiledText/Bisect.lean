/-!
# Partition points

A predicate partitions a sequence when it holds of an initial segment and of
nothing after it. The length of that segment is the partition point. Binary
search finds it, and `partitionPoint_eq` says that the answer is the one a walk
from the left would give.
-/

namespace TiledText

/-!
## The search
-/

/--
Narrows the window from `lo` to `hi` around the partition point. The bound on
`hi` keeps every probe inside the array.
-/
def bisect (xs : Array α) (p : α → Bool) (lo hi : Nat) (bound : hi ≤ xs.size) : Nat :=
  if window : lo < hi then
    let mid := lo + (hi - lo) / 2
    have inside : mid < xs.size := by omega
    if p xs[mid] then
      bisect xs p (mid + 1) hi bound
    else
      bisect xs p lo mid (by omega)
  else
    lo
termination_by hi - lo

/-- The number of leading elements on which `p` holds. -/
def partitionPoint (xs : Array α) (p : α → Bool) : Nat :=
  bisect xs p 0 xs.size (Nat.le_refl _)

/-!
## Partitioned sequences
-/

def Partitioned (p : α → Bool) (xs : List α) : Prop :=
  xs.Pairwise (fun a b => p b = true → p a = true)

theorem lt_length_takeWhile_iff {p : α → Bool} {xs : List α} (parted : Partitioned p xs)
    {i : Nat} (inside : i < xs.length) :
    i < (xs.takeWhile p).length ↔ p xs[i] = true := by
  induction xs generalizing i with
  | nil =>
      simp at inside
  | cons x rest ih =>
      have split := List.pairwise_cons.mp parted
      cases holds : p x with
      | false =>
          have later : p (x :: rest)[i] = false := by
            cases i with
            | zero =>
                exact holds
            | succ j =>
                have shorter : j < rest.length := by simpa using inside
                have member : rest[j] ∈ rest := List.getElem_mem _
                have back := split.1 _ member
                simp [holds] at back
                simpa using back
          simp [holds, later]
      | true =>
          cases i with
          | zero =>
              simp [holds]
          | succ j =>
              have step := ih split.2 (i := j) (by simpa using inside)
              simpa [holds] using step

theorem not_of_mem_dropWhile {p : α → Bool} {xs : List α} (parted : Partitioned p xs)
    {x : α} (member : x ∈ xs.dropWhile p) : p x = false := by
  induction xs with
  | nil =>
      simp at member
  | cons y rest ih =>
      have split := List.pairwise_cons.mp parted
      cases holds : p y with
      | true =>
          rw [List.dropWhile_cons_of_pos holds] at member
          exact ih split.2 member
      | false =>
          rw [List.dropWhile_cons_of_neg (by simp [holds])] at member
          cases List.mem_cons.mp member with
          | inl same =>
              rw [same]
              exact holds
          | inr later =>
              have back := split.1 x later
              cases value : p x with
              | false =>
                  rfl
              | true =>
                  rw [back value] at holds
                  contradiction

/-!
## The search finds the partition point
-/

theorem bisect_eq {xs : Array α} {p : α → Bool} (parted : Partitioned p xs.toList)
    {lo hi : Nat} {bound : hi ≤ xs.size}
    (above : lo ≤ (xs.toList.takeWhile p).length)
    (below : (xs.toList.takeWhile p).length ≤ hi) :
    bisect xs p lo hi bound = (xs.toList.takeWhile p).length := by
  fun_induction bisect xs p lo hi bound with
  | case1 lo hi bound window mid inside holds ih =>
      have probe := lt_length_takeWhile_iff parted (i := mid) (by simp; omega)
      exact ih (probe.mpr (by simpa using holds)) below
  | case2 lo hi bound window mid inside fails ih =>
      have probe := lt_length_takeWhile_iff parted (i := mid) (by simp; omega)
      apply ih above
      apply Nat.le_of_not_lt
      intro further
      exact fails (by simpa using probe.mp further)
  | case3 lo hi bound window =>
      omega

theorem partitionPoint_eq {xs : Array α} {p : α → Bool} (parted : Partitioned p xs.toList) :
    partitionPoint xs p = (xs.toList.takeWhile p).length := by
  apply bisect_eq parted (Nat.zero_le _)
  simpa using (List.takeWhile_sublist (l := xs.toList) p).length_le

/-!
## Splitting at the partition point
-/

def leading (xs : Array α) (p : α → Bool) : Array α :=
  xs.take (partitionPoint xs p)

def trailing (xs : Array α) (p : α → Bool) : Array α :=
  xs.drop (partitionPoint xs p)

theorem toList_leading {xs : Array α} {p : α → Bool} (parted : Partitioned p xs.toList) :
    (leading xs p).toList = xs.toList.takeWhile p := by
  rw [leading, Array.toList_extract, List.extract_eq_take_drop, partitionPoint_eq parted]
  exact (List.prefix_iff_eq_take.mp (List.takeWhile_prefix p)).symm

theorem leading_append_trailing {xs : Array α} {p : α → Bool} :
    (leading xs p).toList ++ (trailing xs p).toList = xs.toList := by
  simp [leading, trailing, List.extract_eq_take_drop, List.take_of_length_le]

theorem toList_trailing {xs : Array α} {p : α → Bool} (parted : Partitioned p xs.toList) :
    (trailing xs p).toList = xs.toList.dropWhile p := by
  have whole : xs.toList.takeWhile p ++ (trailing xs p).toList =
      xs.toList.takeWhile p ++ xs.toList.dropWhile p := by
    rw [List.takeWhile_append_dropWhile, ← toList_leading parted, leading_append_trailing]
  exact List.append_cancel_left whole

end TiledText
