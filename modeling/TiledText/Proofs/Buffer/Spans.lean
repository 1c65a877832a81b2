import TiledText.Proofs.Buffer.Insertion

/-!
# Edits span by span

A deletion can be described without saying how it is found. Each token is looked at by
itself, as the span that it covers. It goes if it has code units and all of them are taken
out. Otherwise it stays, and its end comes to lie where the text after the deletion has it.

An insertion is described by one token, the one that holds the code unit before the room.
It and those after it move their ends by the width, and nothing else changes.

Both descriptions are met by the buffer that is edited in place.
-/

namespace TiledText

/-!
## Single spans
-/

namespace Span

/-- The span has code units, and all of them are among those taken out. -/
def gone (start stop : UInt32) (span : Span) : Bool :=
  span.start < span.stop && start ≤ span.start && span.stop ≤ stop

def stopWithout (start stop : UInt32) (span : Span) : UInt32 :=
  if span.stop ≤ start then
    span.stop
  else if span.stop ≤ stop then
    start
  else
    span.stop - (stop - start)

variable {start stop : UInt32} {span : Span}

theorem gone_of_before (before : span.stop ≤ start) : span.gone start stop = false := by
  rw [Bool.eq_false_iff]
  intro inside
  simp only [gone, Bool.and_eq_true, decide_eq_true_eq] at inside
  exact UInt32.not_lt.mpr (UInt32.le_trans before inside.1.2) inside.1.1

theorem gone_of_past (past : stop < span.stop) : span.gone start stop = false := by
  rw [Bool.eq_false_iff]
  intro inside
  simp only [gone, Bool.and_eq_true, decide_eq_true_eq] at inside
  exact UInt32.not_lt.mpr inside.2 past

theorem gone_of_across (across : span.start < start) : span.gone start stop = false := by
  rw [Bool.eq_false_iff]
  intro inside
  simp only [gone, Bool.and_eq_true, decide_eq_true_eq] at inside
  exact UInt32.not_lt.mpr inside.1.2 across

theorem gone_of_inside (wide : span.start < span.stop) (after : start ≤ span.start)
    (before : span.stop ≤ stop) : span.gone start stop = true := by
  simp [gone, wide, after, before]

theorem stopWithout_of_past (le : start ≤ stop) (past : stop < span.stop) :
    span.stopWithout start stop = span.stop - (stop - start) := by
  rw [stopWithout, if_neg (UInt32.not_le.mpr (UInt32.lt_of_le_of_lt le past)),
    if_neg (UInt32.not_le.mpr past)]

end Span

namespace Tiling

/-!
## Spans in sequence
-/

def endFrom (begins : UInt32) (tokens : List Token) : UInt32 :=
  (tokens.getLast?.map Token.stop).getD begins

theorem endFrom_cons (begins : UInt32) (token : Token) (rest : List Token) :
    endFrom begins (token :: rest) = endFrom token.stop rest := by
  cases rest with
  | nil =>
      rfl
  | cons other more =>
      rw [endFrom, endFrom, List.getLast?_cons_cons, List.getLast?_eq_some_getLast
        (List.cons_ne_nil other more)]
      rfl

theorem reach_eq_endFrom (tokens : Array Token) : reach tokens = endFrom 0 tokens.toList := by
  rw [reach, endFrom, Array.getLast?_toList]
  cases tokens.back? with
  | none =>
      rfl
  | some last =>
      rfl

theorem spansFrom_append (begins : UInt32) (before after : List Token) :
    spansFrom begins (before ++ after) =
      spansFrom begins before ++ spansFrom (endFrom begins before) after := by
  induction before generalizing begins with
  | nil =>
      rfl
  | cons token rest ih =>
      rw [List.cons_append, spansFrom, spansFrom, ih, endFrom_cons, List.cons_append]

theorem getElem?_spansFrom (begins : UInt32) (tokens : List Token) (i : Nat) :
    (spansFrom begins tokens)[i]? =
      tokens[i]?.map fun token => ⟨endFrom begins (tokens.take i), token.stop, token.tag⟩ := by
  induction tokens generalizing begins i with
  | nil =>
      rfl
  | cons token rest ih =>
      cases i with
      | zero =>
          rfl
      | succ j =>
          rw [spansFrom, List.getElem?_cons_succ, List.getElem?_cons_succ, ih,
            List.take_succ_cons, endFrom_cons]

/-!
## What a deletion spares

Spans before the cut are spared as they are, and those that begin behind its start are gone
or move back. The one in which the cut begins is severed, gone, or only shorter.
-/

/-- The spans that are not gone, each with its new end. -/
def spare (start stop : UInt32) (spans : List Span) : List Token :=
  (spans.filter fun span => !span.gone start stop).map fun span =>
    ⟨span.stopWithout start stop, span.tag⟩

variable {start stop : UInt32}

theorem spare_cons_of_gone {span : Span} (gone : span.gone start stop = true)
    (rest : List Span) : spare start stop (span :: rest) = spare start stop rest := by
  rw [spare, List.filter_cons_of_neg (by simp [gone])]
  rfl

theorem spare_cons_of_spared {span : Span} (spared : span.gone start stop = false)
    (rest : List Span) :
    spare start stop (span :: rest) =
      ⟨span.stopWithout start stop, span.tag⟩ :: spare start stop rest := by
  rw [spare, List.filter_cons_of_pos (by simp [spared])]
  rfl

theorem spare_append (before after : List Span) :
    spare start stop (before ++ after) = spare start stop before ++ spare start stop after := by
  rw [spare, List.filter_append, List.map_append]
  rfl

theorem spare_before {tokens : List Token} (before : ∀ token ∈ tokens, token.stop ≤ start)
    (begins : UInt32) : spare start stop (spansFrom begins tokens) = tokens := by
  induction tokens generalizing begins with
  | nil =>
      rfl
  | cons token rest ih =>
      have first := before token (List.mem_cons_self ..)
      have later := ih (fun other member => before other (List.mem_cons_of_mem _ member)) token.stop
      rw [spansFrom, spare_cons_of_spared (Span.gone_of_before first), later, Span.stopWithout,
        if_pos first]

theorem dropWhile_stopsBy_of_past {tokens : List Token}
    (past : ∀ token ∈ tokens, stop < token.stop) : tokens.dropWhile (stopsBy stop) = tokens := by
  cases tokens with
  | nil =>
      rfl
  | cons token rest =>
      have first := past token (List.mem_cons_self ..)
      apply List.dropWhile_cons_of_neg
      rw [stopsBy, decide_eq_true_eq, UInt32.not_le]
      exact first

theorem spare_after (le : start ≤ stop) {begins : UInt32} (after : start ≤ begins)
    {tokens : List Token} (increasing : Increasing tokens)
    (forward : ∀ token ∈ tokens, begins < token.stop) :
    spare start stop (spansFrom begins tokens) =
      (tokens.dropWhile (stopsBy stop)).map (Token.retreat (stop - start)) := by
  induction tokens generalizing begins with
  | nil =>
      rfl
  | cons token rest ih =>
      have split := List.pairwise_cons.mp increasing
      have first := forward token (List.mem_cons_self ..)
      have later := ih (UInt32.le_trans after (UInt32.le_of_lt first)) split.2 split.1
      rw [spansFrom]
      cases holds : stopsBy stop token with
      | true =>
          have ends : token.stop ≤ stop := of_decide_eq_true holds
          have gone : (⟨begins, token.stop, token.tag⟩ : Span).gone start stop = true :=
            Span.gone_of_inside first after ends
          rw [spare_cons_of_gone gone, later, List.dropWhile_cons_of_pos holds]
      | false =>
          have past : stop < token.stop := UInt32.not_le.mp (of_decide_eq_false holds)
          have beyond : rest.dropWhile (stopsBy stop) = rest :=
            dropWhile_stopsBy_of_past fun other member =>
              UInt32.lt_trans past (split.1 other member)
          rw [spare_cons_of_spared (Span.gone_of_past past), later, beyond,
            Span.stopWithout_of_past le past, List.dropWhile_cons_of_neg (by simp [holds])]
          rfl

theorem spare_across (le : start ≤ stop) {begins : UInt32} (before : begins ≤ start)
    {token : Token} {rest : List Token} (increasing : Increasing (token :: rest))
    (after : start < token.stop) :
    spare start stop (spansFrom begins (token :: rest)) =
      (if begins = start ∨ stop < token.stop then none
        else some (token.cutAt start)).toList ++
          ((token :: rest).dropWhile (stopsBy stop)).map (Token.retreat (stop - start)) := by
  have split := List.pairwise_cons.mp increasing
  have later := spare_after le (UInt32.le_of_lt after) split.2 split.1
  by_cases boundary : begins = start
  · have forward : ∀ other ∈ token :: rest, begins < other.stop := by
      intro other member
      rw [boundary]
      cases List.mem_cons.mp member with
      | inl same =>
          rw [same]
          exact after
      | inr further =>
          exact UInt32.lt_trans after (split.1 other further)
    rw [if_pos (Or.inl boundary)]
    exact spare_after le (UInt32.le_of_eq boundary.symm) increasing forward
  · have across : begins < start := UInt32.lt_of_le_of_ne before boundary
    rw [spansFrom, spare_cons_of_spared (Span.gone_of_across across), later]
    by_cases past : stop < token.stop
    · have stays : ¬ stopsBy stop token = true := by
        rw [stopsBy, decide_eq_true_eq, UInt32.not_le]
        exact past
      have beyond : rest.dropWhile (stopsBy stop) = rest :=
        dropWhile_stopsBy_of_past fun other member => UInt32.lt_trans past (split.1 other member)
      rw [if_pos (Or.inr past), List.dropWhile_cons_of_neg stays, beyond,
        Span.stopWithout_of_past le past]
      rfl
    · have ends : stopsBy stop token = true := decide_eq_true (UInt32.not_lt.mp past)
      rw [if_neg (not_or.mpr ⟨boundary, past⟩), List.dropWhile_cons_of_pos ends, Span.stopWithout,
        if_neg (UInt32.not_le.mpr after), if_pos (UInt32.not_lt.mp past)]
      rfl

theorem toList_cutTokens_eq_spare {t : Tiling} (lt : start < stop) (bound : stop ≤ t.length) :
    (t.cutTokens start stop).toList = spare start stop t.spans := by
  have le := UInt32.le_of_lt lt
  have whole := List.takeWhile_append_dropWhile (p := stopsBy start) (l := t.toList)
  have leads := toList_leading (t.partitioned_stopsBy start)
  rcases Buffer.indexAt_of_lt (UInt32.lt_of_lt_of_le lt bound) with ⟨token, rest, shape, _⟩
  have before : ∀ other ∈ t.toList.takeWhile (stopsBy start), other.stop ≤ start := by
    intro other member
    exact UInt32.le_iff_toNat_le.mpr (stop_of_mem_takeWhile member)
  have after : start < token.stop := by
    have member : token ∈ t.toList.dropWhile (stopsBy start) := by
      rw [shape]
      exact List.mem_cons_self ..
    exact UInt32.lt_iff_toNat_lt.mpr (stop_of_mem_dropWhile member)
  have reaches : reach (leading t.tokens (stopsBy start)) =
      endFrom 0 (t.toList.takeWhile (stopsBy start)) := by
    rw [reach_eq_endFrom, leads]
    rfl
  have upTo := Buffer.reach_leading_le t start
  have increasing : Increasing (token :: rest) := by
    rw [← shape]
    exact t.ordered.sublist (List.dropWhile_sublist _)
  rw [reaches] at upTo
  rw [toList_cutTokens, t.dropWhile_stopsBy le, Buffer.severed?_eq stop shape, reaches, shape,
    List.append_assoc, ← spare_across le upTo increasing after, spans]
  conv => rhs; rw [← whole, shape, spansFrom_append, spare_append, spare_before before]

/-!
## Deletion

The deletion of a stretch from a buffer that is not empty. It fails for a range that is
reversed or reaches past the end, and only then. A range without units changes nothing, and
that of the whole line leaves nothing. Any other leaves the spans that are not gone, with their
ends where the text has them, and so the tags that stood before the stretch and after it.
-/

theorem delete_eq_error_iff {t : Tiling} (nonempty : t.isEmpty = false) {cause : TilingError} :
    t.delete start stop = .error cause ↔
      (stop < start ∨ t.length < stop) ∧ cause = .rangeOutside start stop t.length := by
  by_cases range : start ≤ stop ∧ stop ≤ t.length
  · have inside : ¬ (stop < start ∨ t.length < stop) := by
      rw [not_or, UInt32.not_lt, UInt32.not_lt]
      exact range
    rcases t.delete_eq_ok range.1 range.2 with ⟨u, deleted⟩
    rw [deleted]
    simp [inside]
  · have outside : stop < start ∨ t.length < stop := by
      rw [← UInt32.not_le, ← UInt32.not_le]
      exact Decidable.not_and_iff_not_or_not.mp range
    have failed : t.delete start stop = .error (.rangeOutside start stop t.length) := by
      rw [delete, nonempty, dif_neg range]
      rfl
    rw [failed, Except.error.injEq, eq_comm]
    simp [outside]

/-- The three ways in which a deletion from a buffer that is not empty can go. -/
theorem delete_outcomes {t u : Tiling} (nonempty : t.isEmpty = false)
    (deleted : t.delete start stop = .ok u) :
    (start = stop → u = t) ∧
      (start = 0 → stop = t.length → 0 < t.length → u = empty) ∧
      (start ≠ stop → ¬ (start = 0 ∧ stop = t.length) → u.tokens = t.cutTokens start stop) := by
  rcases delete_cases deleted with ⟨bare, _⟩ | ⟨_, _, _, outcome⟩
  · rw [nonempty] at bare
    contradiction
  · rcases outcome with ⟨same, unchanged⟩ | ⟨differ, first, last, nothing⟩ | ⟨differ, part, cut⟩
    · refine ⟨fun _ => unchanged, ?_, fun differ => absurd same differ⟩
      intro first last wide
      rw [← last, ← same, first] at wide
      exact absurd wide (UInt32.lt_irrefl 0)
    · exact ⟨fun same => absurd same differ, fun _ _ _ => nothing,
        fun _ part => absurd ⟨first, last⟩ part⟩
    · exact ⟨fun same => absurd same differ, fun first last => absurd ⟨first, last⟩ part,
        fun _ _ => cut⟩

theorem delete_by_spans {t : Tiling} (nonempty : t.isEmpty = false) (start stop : UInt32) :
    t.buffer.delete start stop = .ok ((t.delete start stop).map Tiling.buffer) ∧
      (∀ cause, t.delete start stop = .error cause ↔
        (stop < start ∨ t.length < stop) ∧ cause = .rangeOutside start stop t.length) ∧
      (start ≤ stop → stop ≤ t.length → ∃ u, t.delete start stop = .ok u ∧
        (start = stop → u = t) ∧
        (start = 0 → stop = t.length → 0 < t.length → u = empty) ∧
        (start ≠ stop → ¬ (start = 0 ∧ stop = t.length) → u.toList = spare start stop t.spans) ∧
        u.length.toNat = t.length.toNat - (stop.toNat - start.toNat) ∧
        Increasing u.toList ∧
        u.tags = t.tags.take start.toNat ++ t.tags.drop stop.toNat) := by
  refine ⟨Buffer.delete_eq_ok t start stop, fun cause => delete_eq_error_iff nonempty, ?_⟩
  intro le bound
  rcases t.delete_eq_ok le bound with ⟨u, deleted⟩
  have tags := tags_delete deleted
  rcases delete_outcomes nonempty deleted with ⟨unchanged, nothing, cut⟩
  refine ⟨u, deleted, unchanged, nothing, ?_, ?_, u.ordered, tags⟩
  · intro differ part
    rw [toList, cut differ part]
    exact toList_cutTokens_eq_spare (UInt32.lt_of_le_of_ne le differ) bound
  · have order := UInt32.le_iff_toNat_le.mp le
    have inside := UInt32.le_iff_toNat_le.mp bound
    rw [← length_tags] at inside
    rw [← length_tags, ← length_tags, tags, List.length_append, List.length_take,
      List.length_drop, Nat.min_eq_left (Nat.le_trans order inside)]
    omega

def pairsAfterHairline : Tiling :=
  ⟨#[⟨0, 9⟩, ⟨2, 1⟩, ⟨4, 2⟩, ⟨6, 3⟩, ⟨8, 4⟩, ⟨10, 5⟩], by decide⟩

/-- One token is severed, two are gone, one moves, and the hairline stays. -/
theorem delete_by_spans_across :
    ∃ u, pairsAfterHairline.delete 3 8 = .ok u ∧
      pairsAfterHairline.buffer.delete 3 8 = .ok (.ok u.buffer) ∧
      u.toList = [⟨0, 9⟩, ⟨2, 1⟩, ⟨3, 2⟩, ⟨5, 5⟩] ∧ u.tags = [1, 1, 2, 5, 5] ∧
      pairsAfterHairline.delete 3 11 = .error (.rangeOutside 3 11 10) := by
  rcases delete_by_spans (t := pairsAfterHairline) (by decide) 3 8 with ⟨inPlace, _, law⟩
  rcases law (by decide) (by decide) with ⟨u, deleted, _, _, spared, _, _, tags⟩
  have outside := (delete_by_spans (t := pairsAfterHairline) (by decide) 3 11).2.1
  rw [deleted] at inPlace
  refine ⟨u, deleted, inPlace, ?_, ?_, (outside _).mpr ⟨Or.inr (by decide), by decide⟩⟩
  · exact (spared (by decide) (by decide)).trans (by decide)
  · exact tags.trans (by decide)

/-!
## Insertion

The token to widen is the first that does not stop before the offset. It holds the code unit
in front of the offset, if there is one.
-/

theorem insert_eq_error_iff {t : Tiling} (nonempty : t.isEmpty = false) {offset width : UInt32}
    {cause : TilingError} :
    t.insert offset width = .error cause ↔
      (t.length < offset ∧ cause = .rangeOutside offset offset t.length) ∨
        (offset ≤ t.length ∧ width ≠ 0 ∧ UInt32.size ≤ t.length.toNat + width.toNat ∧
          cause = .overflow t.length width) := by
  unfold insert
  rw [nonempty]
  by_cases outside : t.length < offset
  · simp [outside, UInt32.not_le.mpr outside, eq_comm]
  · have inside := UInt32.not_lt.mp outside
    by_cases zero : width = 0
    · simp [outside, zero]
    · by_cases fits : Fits t.length width
      · have short : ¬ UInt32.size ≤ t.length.toNat + width.toNat := Nat.not_le_of_lt fits
        simp [outside, zero, fits, short]
      · have long : UInt32.size ≤ t.length.toNat + width.toNat := Nat.le_of_not_lt fits
        simp [outside, inside, zero, fits, long, eq_comm]

theorem exists_widest {t : Tiling} (nonempty : t.isEmpty = false) {offset : UInt32}
    (inside : offset ≤ t.length) :
    ∃ token, t.toList[(t.toList.takeWhile (stopsBefore offset)).length]? = some token ∧
      offset ≤ token.stop ∧ t.tagBefore? offset.toNat = some token.tag := by
  have few := Buffer.length_takeWhile_stopsBefore_lt nonempty inside
  have there := List.getElem?_eq_getElem few
  have whole := List.takeWhile_append_dropWhile (p := stopsBefore offset) (l := t.toList)
  have first : (t.toList.dropWhile (stopsBefore offset)).head? =
      t.toList[(t.toList.takeWhile (stopsBefore offset)).length]? := by
    conv => rhs; arg 1; rw [← whole]
    rw [List.getElem?_append_right (Nat.le_refl _), Nat.sub_self, List.head?_eq_getElem?]
  have grows := t.head?_dropWhile_stopsBefore offset
  rw [first, there] at grows
  refine ⟨_, there, ?_, grows.symm⟩
  have probe := Buffer.lt_length_takeWhile_stopsBefore_iff t offset few
  exact UInt32.not_lt.mp fun early => Nat.lt_irrefl _ (probe.mpr early)

theorem length_takeWhile_stopsBefore_zero (t : Tiling) :
    (t.toList.takeWhile (stopsBefore 0)).length = 0 := by
  cases tokens : t.toList with
  | nil =>
      rfl
  | cons token rest =>
      rw [List.takeWhile_cons_of_neg (by simp [stopsBefore])]
      rfl

theorem start_of_widest {t : Tiling} {offset : UInt32} (later : 0 < offset) :
    endFrom 0 (t.toList.takeWhile (stopsBefore offset)) < offset := by
  rw [endFrom]
  cases last : (t.toList.takeWhile (stopsBefore offset)).getLast? with
  | none =>
      exact later
  | some token =>
      exact UInt32.lt_iff_toNat_lt.mpr
        (stop_of_mem_takeWhile_stopsBefore (List.mem_of_getLast? last))

theorem exists_span_of_widest {t : Tiling} {offset : UInt32} {token : Token}
    (there : t.toList[(t.toList.takeWhile (stopsBefore offset)).length]? = some token)
    (ends : offset ≤ token.stop) {unit : Nat} (count : offset.toNat = unit + 1) :
    ∃ span, t.spans[(t.toList.takeWhile (stopsBefore offset)).length]? = some span ∧
      span.start.toNat ≤ unit ∧ unit < span.stop.toNat := by
  have later : 0 < offset := by
    rw [UInt32.lt_iff_toNat_lt, count]
    exact Nat.succ_pos unit
  have starts := UInt32.lt_iff_toNat_lt.mp (start_of_widest (t := t) later)
  have stops := UInt32.le_iff_toNat_le.mp ends
  have above := List.prefix_iff_eq_take.mp
    (List.takeWhile_prefix (stopsBefore offset) (l := t.toList))
  have found := getElem?_spansFrom 0 t.toList (t.toList.takeWhile (stopsBefore offset)).length
  rw [there, ← above] at found
  rw [count] at starts stops
  exact ⟨_, found, Nat.le_of_lt_succ starts, stops⟩

theorem token?_of_widenTokens {t u : Tiling} {offset width : UInt32}
    (wider : u.tokens = t.widenTokens offset width) {i : Nat} {token : Token}
    (there : t.token? i = some token) :
    u.token? i = some (if i < (t.toList.takeWhile (stopsBefore offset)).length then token
      else token.grow width) := by
  have whole := List.takeWhile_append_dropWhile (p := stopsBefore offset) (l := t.toList)
  have write : u.token? i = (t.widenTokens offset width).toList[i]? := by
    rw [token?_eq_getElem?, toList, wider]
  rw [token?_eq_getElem?, ← whole, List.getElem?_append] at there
  rw [write, toList_widenTokens, List.getElem?_append]
  by_cases before : i < (t.toList.takeWhile (stopsBefore offset)).length
  · rw [if_pos before] at there
    rw [if_pos before, if_pos before, there]
  · rw [if_neg before] at there
    rw [if_neg before, if_neg before, List.getElem?_map, there]
    rfl

theorem size_of_widenTokens {t u : Tiling} {offset width : UInt32}
    (wider : u.tokens = t.widenTokens offset width) : u.size = t.size := by
  rw [size_eq_length_toList, size_eq_length_toList, toList, wider, toList_widenTokens,
    List.length_append, List.length_map, ← List.length_append, List.takeWhile_append_dropWhile]

/-!
## Making room by the spans

Making room in a buffer that is not empty fails for an offset past the end, and for a width
with which the line would be too long, and only then. No width changes nothing. Any other
moves the ends from one token on, the one that holds the unit before the room, or the first
at the beginning of the line. The room takes the tag of that token.
-/

/-- The ends are moved from the token at `g` on. -/
structure Widened (t : Tiling) (offset width : UInt32) (g : Nat) (token : Token) (u : Tiling) :
    Prop where
  found : t.token? g = some token
  beginning : offset = 0 → g = 0
  within : ∀ unit, offset.toNat = unit + 1 → ∃ span, t.spans[g]? = some span ∧
    span.start.toNat ≤ unit ∧ unit < span.stop.toNat
  size : u.size = t.size
  stops : ∀ i a, t.token? i = some a → ∃ b, u.token? i = some b ∧ b.tag = a.tag ∧
    b.stop.toNat = a.stop.toNat + if i < g then 0 else width.toNat
  length : u.length.toNat = t.length.toNat + width.toNat
  tags : u.tags = t.tags.take offset.toNat ++ List.replicate width.toNat token.tag ++
    t.tags.drop offset.toNat

structure InsertsBySpans (t : Tiling) (offset width : UInt32) : Prop where
  buffer : t.buffer.insert offset width = .ok ((t.insert offset width).map Tiling.buffer)
  refused : ∀ cause, t.insert offset width = .error cause ↔
    (t.length < offset ∧ cause = .rangeOutside offset offset t.length) ∨
      (offset ≤ t.length ∧ width ≠ 0 ∧ UInt32.size ≤ t.length.toNat + width.toNat ∧
        cause = .overflow t.length width)
  still : offset ≤ t.length → width = 0 → t.insert offset width = .ok t
  widened : offset ≤ t.length → width ≠ 0 → t.length.toNat + width.toNat < UInt32.size →
    ∃ u g token, t.insert offset width = .ok u ∧ t.Widened offset width g token u

theorem exists_widened {t : Tiling} (nonempty : t.isEmpty = false) {offset width : UInt32}
    (inside : offset ≤ t.length) (fits : t.length.toNat + width.toNat < UInt32.size) :
    ∃ u g token, t.insert offset width = .ok u ∧ t.Widened offset width g token u := by
  rcases t.insert_eq_ok inside fits with ⟨u, inserted⟩
  rcases exists_widest nonempty inside with ⟨token, there, ends, before⟩
  rcases tags_insert inserted nonempty with ⟨tag, grows, tags⟩
  have wider := tokens_insert inserted
  rw [before] at grows
  rw [← Option.some.inj grows] at tags
  refine ⟨u, (t.toList.takeWhile (stopsBefore offset)).length, token, inserted,
    Array.getElem?_toList.symm.trans there, ?_, ?_, size_of_widenTokens wider, ?_,
    length_insert inserted nonempty, tags⟩
  · intro first
    rw [first]
    exact t.length_takeWhile_stopsBefore_zero
  · intro unit count
    exact exists_span_of_widest there ends count
  · intro i a found
    refine ⟨_, token?_of_widenTokens wider found, ?_⟩
    have bound : a.stop ≤ t.length := t.stop_le_length (Array.mem_of_getElem? found)
    split
    case isTrue before =>
      exact ⟨rfl, rfl⟩
    case isFalse after =>
      exact ⟨rfl, toNat_stop_grow fits bound⟩

theorem insert_by_spans {t : Tiling} (nonempty : t.isEmpty = false) (offset width : UInt32) :
    t.InsertsBySpans offset width where
  buffer := Buffer.insert_eq_ok t offset width
  refused := fun _ => insert_eq_error_iff nonempty
  still := by
    intro inside zero
    rw [insert, nonempty, if_neg (UInt32.not_lt.mpr inside), if_pos zero]
    rfl
  widened := fun inside _ fits => exists_widened nonempty inside fits

/-- The hairline widens at the beginning of the line. -/
theorem insert_by_spans_at_beginning :
    (∃ u, pairsAfterHairline.insert 0 2 = .ok u ∧
        pairsAfterHairline.buffer.insert 0 2 = .ok (.ok u.buffer) ∧
        u.length.toNat = 12 ∧ u.tags = [9, 9] ++ pairsAfterHairline.tags) ∧
      pairsAfterHairline.insert 10 4294967290 = .error (.overflow 10 4294967290) := by
  have law := insert_by_spans (t := pairsAfterHairline) (by decide) 0 2
  rcases law.widened (by decide) (by decide) (by decide) with ⟨u, g, token, inserted, widened⟩
  have long := (insert_by_spans (t := pairsAfterHairline) (by decide) 10 4294967290).refused
  have inPlace := law.buffer
  have found := widened.found
  have tags := widened.tags
  rw [inserted] at inPlace
  rw [widened.beginning rfl] at found
  rw [← Option.some.inj found] at tags
  refine ⟨⟨u, inserted, inPlace, widened.length.trans (by decide), tags.trans (by decide)⟩, ?_⟩
  exact (long _).mpr (Or.inr (by decide))

/-- At an edge the token that stops there widens. -/
example : (pairsAfterHairline.insert 4 2).map Tiling.toList =
    .ok [⟨0, 9⟩, ⟨2, 1⟩, ⟨6, 2⟩, ⟨8, 3⟩, ⟨10, 4⟩, ⟨12, 5⟩] := by
  cbv

end Tiling

end TiledText
