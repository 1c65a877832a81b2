import TiledText.Proofs.Buffer.Spans

/-!
# Searching by offset

The search for the token at an offset halves its window, and it never looks at the last
token. What it finds is what a look at one token after the other finds: the first token that
stops after the offset, or the last one where every token has stopped by then.

Inside the line that is the one span that has the code unit at the offset. A greater offset
never leads to an earlier token.
-/

namespace TiledText

def Span.Has (span : Span) (offset : UInt32) : Prop :=
  span.start ≤ offset ∧ offset < span.stop

namespace Tiling

/-- Looks at one token after the other. Where none stops after the offset, it is the last one. -/
def scan (offset : UInt32) (tokens : List Token) : Nat :=
  (tokens.findIdx? fun token => offset < token.stop).getD (tokens.length - 1)

structure FirstPast (t : Tiling) (offset : UInt32) (index : Nat) : Prop where
  past : ∃ token, t.token? index = some token ∧ offset < token.stop
  before : ∀ j token, j < index → t.token? j = some token → token.stop ≤ offset

/-!
## The scan

The search agrees with the scan, and a greater offset leads to the same token or to a later
one.
-/

/-- Tokens are passed by as long as they stop by the offset, and the last one never is. -/
theorem scan_eq_min (offset : UInt32) (tokens : List Token) :
    scan offset tokens =
      min (tokens.takeWhile (stopsBy offset)).length (tokens.length - 1) := by
  unfold scan
  induction tokens with
  | nil =>
      rfl
  | cons token rest ih =>
      rw [List.findIdx?_cons, List.length_cons, Nat.add_sub_cancel]
      by_cases past : offset < token.stop
      · have stays : stopsBy offset token = false :=
          decide_eq_false (UInt32.not_le.mpr past)
        simp [past, stays]
      · have goes : stopsBy offset token = true :=
          decide_eq_true (UInt32.not_lt.mp past)
        simp only [past, decide_false, goes, List.takeWhile_cons_of_pos, List.length_cons]
        cases found : rest.findIdx? fun token => offset < token.stop with
        | none =>
            rw [found] at ih
            simp only [Option.getD_none] at ih
            simp only [Bool.false_eq_true, if_false, Option.map_none, Option.getD_none]
            omega
        | some j =>
            have inside := (List.findIdx?_eq_some_iff_getElem.mp found).1
            rw [found] at ih
            simp only [Option.getD_some] at ih
            simp only [Bool.false_eq_true, if_false, Option.map_some, Option.getD_some]
            omega

theorem indexAt_eq_scan (t : Tiling) (offset : UInt32) :
    t.indexAt offset = scan offset t.toList := by
  rw [indexAt, partitionPoint_eq (t.partitioned_stopsBy offset), scan_eq_min]
  rfl

theorem scan_of_firstPast {t : Tiling} {offset : UInt32} {index : Nat}
    (first : t.FirstPast offset index) : scan offset t.toList = index := by
  rcases first.past with ⟨token, there, past⟩
  rw [token?_eq_getElem?] at there
  rcases List.getElem?_eq_some_iff.mp there with ⟨inside, same⟩
  have found : (t.toList.findIdx? fun token => offset < token.stop) = some index := by
    rw [List.findIdx?_eq_some_iff_getElem]
    refine ⟨inside, ?_, ?_⟩
    · rw [same]
      exact decide_eq_true past
    · intro j earlier
      have bound : j < t.toList.length := Nat.lt_trans earlier inside
      have stops := first.before j _ earlier
        ((t.token?_eq_getElem? j).trans (List.getElem?_eq_getElem bound))
      simpa using stops
  rw [scan, found]
  rfl

theorem scan_of_none_past {t : Tiling} {offset : UInt32}
    (passed : ∀ token ∈ t.toList, token.stop ≤ offset) : scan offset t.toList = t.size - 1 := by
  have missed : (t.toList.findIdx? fun token => offset < token.stop) = none := by
    rw [List.findIdx?_eq_none_iff]
    intro token member
    exact decide_eq_false (UInt32.not_lt.mpr (passed token member))
  rw [scan, missed]
  rfl

theorem scan_le_scan (t : Tiling) {offset later : UInt32} (le : offset ≤ later) :
    scan offset t.toList ≤ scan later t.toList := by
  rw [← indexAt_eq_scan, ← indexAt_eq_scan]
  apply Nat.le_of_not_lt
  intro back
  have last : t.indexAt offset ≤ t.toList.length - 1 := Nat.min_le_right _ _
  have inside : t.indexAt later + 1 < t.toList.length := by omega
  have stops := (t.lt_indexAt_iff offset inside).mp back
  exact Nat.lt_irrefl _ ((t.lt_indexAt_iff later inside).mpr (UInt32.le_trans stops le))

/-!
## The span at an offset

A span starts no earlier than the tokens before it stop, so no code unit is in two of them.
Inside the line the first token that stops after the offset has the code unit there.
-/

theorem endFrom_take_succ {tokens : List Token} {k : Nat} (inside : k < tokens.length)
    (begins : UInt32) : endFrom begins (tokens.take (k + 1)) = tokens[k].stop := by
  rw [endFrom, List.take_succ_eq_append_getElem inside, List.getLast?_append]
  rfl

theorem stop_le_endFrom {tokens : List Token} (increasing : Increasing tokens) {j k : Nat}
    (lt : j < k) (inside : k < tokens.length) :
    tokens[j].stop ≤ endFrom 0 (tokens.take k) := by
  cases k with
  | zero =>
      exact absurd lt (Nat.not_lt_zero j)
  | succ m =>
      have bound : m < tokens.length := Nat.lt_of_succ_lt inside
      rw [endFrom_take_succ bound]
      rcases Nat.eq_or_lt_of_le (Nat.le_of_lt_succ lt) with rfl | before
      · exact UInt32.le_refl _
      · have step := List.pairwise_iff_getElem.mp increasing j m (Nat.lt_trans before bound)
          bound before
        exact UInt32.le_of_lt step

theorem eq_of_has {t : Tiling} {j k : Nat} {one other : Span} {offset : UInt32}
    (here : t.spans[j]? = some one) (there : t.spans[k]? = some other)
    (has : one.Has offset) (also : other.Has offset) : j = k := by
  have apart : ∀ {j k : Nat} {one other : Span}, t.spans[j]? = some one →
      t.spans[k]? = some other → one.Has offset → other.Has offset → ¬ j < k := by
    intro j k one other here there has also lt
    rw [spans, getElem?_spansFrom] at here there
    rcases Option.map_eq_some_iff.mp here with ⟨token, found, rfl⟩
    rcases Option.map_eq_some_iff.mp there with ⟨_, next, rfl⟩
    rcases List.getElem?_eq_some_iff.mp found with ⟨_, rfl⟩
    have starts := stop_le_endFrom t.ordered lt (List.getElem?_eq_some_iff.mp next).1
    exact UInt32.not_lt.mpr (UInt32.le_trans starts also.1) has.2
  rcases Nat.lt_trichotomy j k with lt | same | gt
  · exact absurd lt (apart here there has also)
  · exact same
  · exact absurd gt (apart there here also has)

theorem exists_past {t : Tiling} {offset : UInt32} (inside : offset < t.length) :
    ∃ token, t.toList[scan offset t.toList]? = some token ∧ offset < token.stop := by
  cases found : t.toList.findIdx? fun token => offset < token.stop with
  | some index =>
      rcases List.findIdx?_eq_some_iff_getElem.mp found with ⟨bound, past, _⟩
      refine ⟨t.toList[index], ?_, of_decide_eq_true past⟩
      rw [scan, found]
      exact List.getElem?_eq_getElem bound
  | none =>
      have short := List.findIdx?_eq_none_iff.mp found
      have reached : t.length ≤ offset := by
        rw [length, reach_eq_endFrom, endFrom]
        cases last : t.tokens.toList.getLast? with
        | none =>
            exact UInt32.zero_le
        | some token =>
            have stops := short token (List.mem_of_getLast? last)
            exact UInt32.not_lt.mp (of_decide_eq_false stops)
      exact absurd inside (UInt32.not_lt.mpr reached)

theorem exists_span_at {t : Tiling} {offset : UInt32} (inside : offset < t.length) :
    ∃ span, t.spans[scan offset t.toList]? = some span ∧ span.Has offset := by
  rcases exists_past inside with ⟨token, there, past⟩
  refine ⟨⟨endFrom 0 (t.toList.take (scan offset t.toList)), token.stop, token.tag⟩, ?_, ?_, past⟩
  · rw [spans, getElem?_spansFrom, there]
    rfl
  · cases count : scan offset t.toList with
    | zero =>
        exact UInt32.zero_le
    | succ before =>
        rw [count] at there
        have bound := (List.getElem?_eq_some_iff.mp there).1
        rw [endFrom_take_succ (Nat.lt_of_succ_lt bound)]
        apply (t.lt_indexAt_iff offset bound).mp
        rw [indexAt_eq_scan, count]
        exact Nat.lt_succ_self before

/-!
## Search and scan

The search in a buffer comes to its end without a fault, and what it finds is what a scan
finds. It is the least token that stops after the offset, or the last token if there is none.
For an offset inside the line it is the one span that has the code unit there, and it does not
move back as the offset grows.
-/

structure FoundAt (t : Tiling) (offset : UInt32) (index : Nat) : Prop where
  buffer : t.buffer.indexAt offset = .ok index
  tiling : t.indexAt offset = index
  scanned : index = scan offset t.toList
  least : ∀ i, t.FirstPast offset i → index = i
  last : (∀ token ∈ t.toList, token.stop ≤ offset) → index = t.size - 1
  span : offset < t.length → ∃ span, t.spans[index]? = some span ∧ span.Has offset ∧
    ∀ (i : Nat) (other : Span), t.spans[i]? = some other → other.Has offset → i = index
  later : ∀ later, offset ≤ later → ∃ next, t.buffer.indexAt later = .ok next ∧ index ≤ next

theorem indexAt_by_scan (t : Tiling) (offset : UInt32) : ∃ index, t.FoundAt offset index := by
  have found : t.buffer.indexAt offset = .ok (scan offset t.toList) := by
    rw [Buffer.indexAt_buffer, indexAt_eq_scan]
  refine ⟨scan offset t.toList, found, t.indexAt_eq_scan offset, rfl,
    fun i first => scan_of_firstPast first, fun passed => scan_of_none_past passed, ?_, ?_⟩
  · intro inside
    rcases exists_span_at inside with ⟨span, there, has⟩
    exact ⟨span, there, has, fun i other here also => eq_of_has here there also has⟩
  · intro later le
    refine ⟨scan later t.toList, ?_, t.scan_le_scan le⟩
    rw [Buffer.indexAt_buffer, indexAt_eq_scan]

/-- At an edge it is the token that begins there, and past the end it is the last one. -/
theorem indexAt_by_scan_after_hairline :
    pairsAfterHairline.FirstPast 4 3 ∧ pairsAfterHairline.buffer.indexAt 4 = .ok 3 ∧
      (∃ span, pairsAfterHairline.spans[3]? = some span ∧ span.Has 4) ∧
      pairsAfterHairline.buffer.indexAt 10 = .ok 5 := by
  have first : pairsAfterHairline.FirstPast 4 3 := by
    refine ⟨⟨⟨6, 3⟩, rfl, by decide⟩, ?_⟩
    intro j token before there
    match j, before, there with
    | 0, _, there | 1, _, there | 2, _, there =>
        cases there
        decide
  rcases indexAt_by_scan pairsAfterHairline 4 with ⟨index, found⟩
  rcases indexAt_by_scan pairsAfterHairline 10 with ⟨last, clamped⟩
  rcases found.span (by decide) with ⟨span, there, has, _⟩
  have inPlace := found.buffer
  have ending := clamped.buffer
  rw [found.least 3 first] at inPlace there
  rw [clamped.last (by decide)] at ending
  exact ⟨first, inPlace, ⟨span, there, has⟩, ending⟩

end Tiling

end TiledText
