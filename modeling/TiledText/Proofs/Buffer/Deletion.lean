import TiledText.Buffer.Edit
import TiledText.Proofs.Buffer.Reading
import TiledText.Proofs.Tiling.Deletion

/-!
# Deletion in a buffer

Deletion changes the words of a tiling in place, without a fault, into the words of
the tiling that deletion leaves.

Both loops are followed on the tokens that the words stand for. While stops are
changed, the tokens before the index are done with. While tokens are moved forward,
there are three parts: what has been written, words that count no more, and what is
still to be looked at. The middle part consists of whole tokens, as many as have been
dropped, so a token is never written over before it has been read.
-/

namespace TiledText

namespace Packed

theorem set_stop (before : List Token) (token : Token) (after : List Token) (stop : UInt32) :
    (wordsOfTokens (before ++ token :: after)).set (2 * before.length) stop =
      wordsOfTokens (before ++ token.cutAt stop :: after) := by
  rw [wordsOfTokens_append, wordsOfTokens_append, List.set_append_right _ _
    (Nat.le_of_eq (length_wordsOfTokens before)), length_wordsOfTokens, Nat.sub_self]
  rfl

theorem set_tag (before : List Token) (token : Token) (after : List Token) (tag : UInt32) :
    (wordsOfTokens (before ++ token :: after)).set (2 * before.length + 1) tag =
      wordsOfTokens (before ++ ⟨token.stop, tag⟩ :: after) := by
  rw [wordsOfTokens_append, wordsOfTokens_append, List.set_append_right _ _
    (by rw [length_wordsOfTokens]; exact Nat.le_succ _), length_wordsOfTokens,
    Nat.add_sub_cancel_left]
  rfl

theorem getElem?_stop (before : List Token) (token : Token) (after : List Token) :
    (wordsOfTokens (before ++ token :: after))[2 * before.length]? = some token.stop := by
  rw [getElem?_wordsOfTokens, List.getElem?_append_right (Nat.le_refl _), Nat.sub_self]
  rfl

theorem getElem?_tag (before : List Token) (token : Token) (after : List Token) :
    (wordsOfTokens (before ++ token :: after))[2 * before.length + 1]? = some token.tag := by
  rw [getElem?_wordsOfTokens_tag, List.getElem?_append_right (Nat.le_refl _), Nat.sub_self]
  rfl

theorem take_wordsOfTokens (before after : List Token) :
    (wordsOfTokens (before ++ after)).take (2 * before.length) = wordsOfTokens before := by
  rw [wordsOfTokens_append, ← length_wordsOfTokens, List.take_left]

end Packed

namespace Buffer

open Checked

/-!
## Writing one token
-/

theorem write_stop (before : List Token) (token : Token) (after : List Token) (stop : UInt32) :
    write (Packed.wordsOfTokens (before ++ token :: after)) (2 * before.length) stop =
      .ok (Packed.wordsOfTokens (before ++ token.cutAt stop :: after)) := by
  have inside := (List.getElem?_eq_some_iff.mp (Packed.getElem?_stop before token after)).1
  rw [write_eq_ok inside, Packed.set_stop]

theorem write_tag (before : List Token) (token : Token) (after : List Token) (tag : UInt32) :
    write (Packed.wordsOfTokens (before ++ token :: after)) (2 * before.length + 1) tag =
      .ok (Packed.wordsOfTokens (before ++ ⟨token.stop, tag⟩ :: after)) := by
  have inside := (List.getElem?_eq_some_iff.mp (Packed.getElem?_tag before token after)).1
  rw [write_eq_ok inside, Packed.set_tag]

/-!
## Changing stops
-/

theorem adjust_eq_ok (change : UInt32 → Checked UInt32) (moved : Token → Token)
    (keeps : ∀ token, (moved token).tag = token.tag) (before : List Token) {after : List Token}
    (fits : 2 * (before.length + after.length) < indexSize)
    (changes : ∀ token ∈ after, change token.stop = .ok (moved token).stop) :
    adjust change (Packed.wordsOfTokens (before ++ after)) before.length after.length =
      .ok (Packed.wordsOfTokens (before ++ after.map moved)) := by
  induction after generalizing before with
  | nil =>
      rfl
  | cons token rest ih =>
      rw [List.length_cons] at fits
      have place := mulIndex_two (n := before.length) (by omega)
      have stop := read_eq_ok (Packed.getElem?_stop before token rest)
      have next : (before ++ [moved token]).length = before.length + 1 := List.length_append
      have done : before ++ token.cutAt (moved token).stop :: rest =
          before ++ [moved token] ++ rest := by
        rw [Token.cutAt, ← keeps token, List.append_assoc]
        rfl
      have later := ih (before ++ [moved token]) (by rw [next]; omega)
        fun other member => changes other (List.mem_cons_of_mem _ member)
      rw [List.length_cons, adjust, place, ok_bind, stop, ok_bind,
        changes token (List.mem_cons_self ..), ok_bind, write_stop, ok_bind, done, ← next, later,
        List.append_assoc]
      rfl

/-!
## Moving survivors forward
-/

/--
A token is written over the first of those that count no more, or over itself. There
are as many of them afterwards.
-/
theorem move_eq_ok (done gone : List Token) (token : Token) (rest : List Token) (stop : UInt32)
    (fits : 2 * (done.length + gone.length) + 1 < indexSize) :
    ∃ later : List Token, later.length = gone.length ∧
      move (Packed.wordsOfTokens (done ++ (gone ++ token :: rest)))
          (2 * (done.length + gone.length)) (2 * done.length) stop =
        .ok (Packed.wordsOfTokens (done ++ token.cutAt stop :: (later ++ rest))) := by
  have first : ∃ (covered : Token) (later : List Token), later.length = gone.length ∧
      gone ++ token :: rest = covered :: (later ++ rest) := by
    cases gone with
    | nil =>
        exact ⟨token, [], rfl, rfl⟩
    | cons other others =>
        refine ⟨other, others ++ [token], List.length_append, ?_⟩
        rw [List.append_assoc]
        rfl
  rcases first with ⟨covered, later, count, split⟩
  -- The tag does not stand where the stop has just been written.
  have tag : ((Packed.wordsOfTokens (done ++ (gone ++ token :: rest))).set (2 * done.length)
      stop)[2 * (done.length + gone.length) + 1]? = some token.tag := by
    rw [List.getElem?_set_ne (by omega), ← List.append_assoc, ← List.length_append]
    exact Packed.getElem?_tag (done ++ gone) token rest
  rw [split, Packed.set_stop] at tag
  have origin : addIndex (2 * (done.length + gone.length)) 1 =
      .ok (2 * (done.length + gone.length) + 1) := addIndex_eq_ok fits
  have beside : addIndex (2 * done.length) 1 = .ok (2 * done.length + 1) :=
    addIndex_eq_ok (by omega)
  refine ⟨later, count, ?_⟩
  rw [move, split, write_stop, ok_bind, origin, ok_bind, read_eq_ok tag, ok_bind, beside, ok_bind,
    write_tag]
  rfl

/-- The tokens that survive a removal, moved back by its width. -/
def survivors (width last : UInt32) : List Token → List Token
  | [] => []
  | token :: rest =>
      if last < subOrZero token.stop width then
        token.cutAt (subOrZero token.stop width) ::
          survivors width (subOrZero token.stop width) rest
      else
        survivors width last rest

/--
After the loop the words of the survivors follow those that had been written. What
comes behind them counts no more.
-/
theorem compact_eq_ok (width last : UInt32) (done gone rest : List Token)
    (fits : 2 * (done.length + gone.length + rest.length) + 2 < indexSize) :
    ∃ left, compact width (Packed.wordsOfTokens (done ++ (gone ++ rest)))
        (done.length + gone.length) (2 * done.length) last rest.length =
      .ok (Packed.wordsOfTokens (done ++ survivors width last rest ++ left),
        2 * (done ++ survivors width last rest).length) := by
  induction rest generalizing done gone last with
  | nil =>
      refine ⟨gone, ?_⟩
      rw [survivors, List.append_nil, List.append_nil]
      rfl
  | cons token rest ih =>
      rw [List.length_cons] at fits
      have place := mulIndex_two (n := done.length + gone.length) (by omega)
      have stop : read (Packed.wordsOfTokens (done ++ (gone ++ token :: rest)))
          (2 * (done.length + gone.length)) = .ok token.stop := by
        rw [← List.append_assoc, ← List.length_append]
        exact read_eq_ok (Packed.getElem?_stop (done ++ gone) token rest)
      rw [List.length_cons, compact, place, ok_bind, stop, ok_bind, survivors]
      simp only
      split
      case isTrue survives =>
        rcases move_eq_ok done gone token rest (subOrZero token.stop width) (by omega) with
          ⟨later, count, moved⟩
        have dest : addIndex (2 * done.length) 2 = .ok (2 * (done.length + 1)) :=
          addIndex_eq_ok (by omega)
        have grown : (done ++ [token.cutAt (subOrZero token.stop width)]).length =
            done.length + 1 := List.length_append
        have joined : ∀ tokens : List Token,
            done ++ [token.cutAt (subOrZero token.stop width)] ++ tokens =
              done ++ token.cutAt (subOrZero token.stop width) :: tokens := by
          intro tokens
          rw [List.append_assoc]
          rfl
        rcases ih (subOrZero token.stop width)
          (done ++ [token.cutAt (subOrZero token.stop width)]) later (by omega) with ⟨left, run⟩
        rw [grown, count, joined, joined, Nat.add_right_comm] at run
        refine ⟨left, ?_⟩
        rw [moved, ok_bind, dest, ok_bind, run]
      case isFalse swallowed =>
        have further : done ++ (gone ++ token :: rest) = done ++ (gone ++ [token] ++ rest) := by
          rw [List.append_assoc]
          rfl
        have next : (gone ++ [token]).length = gone.length + 1 := List.length_append
        rw [further, Nat.add_assoc, ← next]
        exact ih last done (gone ++ [token]) (by omega)

/-!
## Who survives
-/

theorem sub_le {start stop : UInt32} (le : start ≤ stop) : stop - start ≤ stop := by
  rw [UInt32.le_iff_toNat_le, UInt32.toNat_sub_of_le _ _ le]
  omega

theorem not_lt_subOrZero {start stop other : UInt32} (le : start ≤ stop) (before : other ≤ stop) :
    ¬ start < subOrZero other (stop - start) := by
  unfold subOrZero
  split
  case isTrue fits =>
    rw [UInt32.lt_iff_toNat_lt, UInt32.toNat_sub_of_le _ _ fits, UInt32.toNat_sub_of_le _ _ le]
    rw [UInt32.le_iff_toNat_le] at before le
    omega
  case isFalse =>
    exact UInt32.not_lt_zero

theorem survivors_of_past {width last : UInt32} {rest : List Token} (increasing : Increasing rest)
    (fits : ∀ token ∈ rest, width ≤ token.stop)
    (past : ∀ token ∈ rest, last < (token.retreat width).stop) :
    survivors width last rest = rest.map (Token.retreat width) := by
  induction rest generalizing last with
  | nil =>
      rfl
  | cons token rest ih =>
      have split := List.pairwise_cons.mp increasing
      have moved : subOrZero token.stop width = (token.retreat width).stop :=
        if_pos (fits token (List.mem_cons_self ..))
      have later : survivors width (token.retreat width).stop rest =
          rest.map (Token.retreat width) := by
        refine ih split.2 (fun other member => fits other (List.mem_cons_of_mem _ member)) ?_
        intro other member
        exact Tiling.retreat_lt_retreat (fits token (List.mem_cons_self ..)) (split.1 other member)
      rw [survivors, moved, if_pos (past token (List.mem_cons_self ..)), later]
      rfl

theorem survivors_eq {start stop : UInt32} (le : start ≤ stop) {rest : List Token}
    (increasing : Increasing rest) :
    survivors (stop - start) start rest =
      (rest.dropWhile (Tiling.stopsBy stop)).map (Token.retreat (stop - start)) := by
  induction rest with
  | nil =>
      rfl
  | cons token rest ih =>
      have split := List.pairwise_cons.mp increasing
      cases holds : Tiling.stopsBy stop token with
      | true =>
          have before : token.stop ≤ stop := of_decide_eq_true holds
          rw [survivors, if_neg (not_lt_subOrZero le before), ih split.2,
            List.dropWhile_cons_of_pos holds]
      | false =>
          have after : stop < token.stop := UInt32.not_le.mp (of_decide_eq_false holds)
          have past : ∀ other ∈ token :: rest, stop < other.stop := by
            intro other member
            cases List.mem_cons.mp member with
            | inl same =>
                rw [same]
                exact after
            | inr later =>
                exact UInt32.lt_trans after (split.1 other later)
          have narrow : stop - start ≤ stop := sub_le le
          rw [List.dropWhile_cons_of_neg (Bool.eq_false_iff.mp holds)]
          exact survivors_of_past increasing
            (fun other member => UInt32.le_trans narrow (UInt32.le_of_lt (past other member)))
            fun other member => Tiling.lt_retreat le (past other member)

/-!
## The cut

The token in which the cut begins is shortened or severed. The survivors behind it are moved
forward, and the words that count no more are cut off.
-/

theorem indexAt_of_lt {t : Tiling} {offset : UInt32} (inside : offset < t.length) :
    ∃ token rest, t.toList.dropWhile (Tiling.stopsBy offset) = token :: rest ∧
      t.indexAt offset = (t.toList.takeWhile (Tiling.stopsBy offset)).length := by
  have whole := List.takeWhile_append_dropWhile (p := Tiling.stopsBy offset) (l := t.toList)
  cases after : t.toList.dropWhile (Tiling.stopsBy offset) with
  | nil =>
      rw [after, List.append_nil] at whole
      have short : t.length.toNat ≤ offset.toNat := by
        apply (t.length_le_iff offset.toNat).mpr
        intro token member
        rw [← whole] at member
        exact Tiling.stop_of_mem_takeWhile member
      exact absurd (UInt32.lt_iff_toNat_lt.mp inside) (Nat.not_lt_of_le short)
  | cons token rest =>
      have count := congrArg List.length whole
      rw [after, List.length_append, List.length_cons] at count
      refine ⟨token, rest, rfl, ?_⟩
      rw [Tiling.indexAt, partitionPoint_eq (t.partitioned_stopsBy offset),
        t.size_eq_length_toList, ← Tiling.toList]
      omega

theorem reach_leading_le (t : Tiling) (start : UInt32) :
    Tiling.reach (leading t.tokens (Tiling.stopsBy start)) ≤ start := by
  unfold Tiling.reach
  cases back : (leading t.tokens (Tiling.stopsBy start)).back? with
  | none =>
      exact UInt32.le_iff_toNat_le.mpr (Nat.zero_le _)
  | some last =>
      have member := Array.mem_def.mp (Array.mem_of_back? back)
      rw [toList_leading (t.partitioned_stopsBy start)] at member
      exact UInt32.le_iff_toNat_le.mpr (Tiling.stop_of_mem_takeWhile member)

theorem severed?_eq {t : Tiling} {start : UInt32} (stop : UInt32) {token : Token}
    {rest : List Token} (after : t.toList.dropWhile (Tiling.stopsBy start) = token :: rest) :
    t.severed? start stop =
      if Tiling.reach (leading t.tokens (Tiling.stopsBy start)) = start ∨ stop < token.stop then
        none
      else
        some (token.cutAt start) := by
  have first := Tiling.head?_dropWhile (t.partitioned_stopsBy start)
  have bound := reach_leading_le t start
  rw [after, List.head?_cons] at first
  rw [Tiling.severed?, ← first]
  by_cases boundary : Tiling.reach (leading t.tokens (Tiling.stopsBy start)) = start
  · rw [boundary, if_neg (UInt32.lt_irrefl start), if_pos (Or.inl rfl)]
  · rw [if_pos (UInt32.lt_of_le_of_ne bound boundary)]
    cases holds : Tiling.stopsBy stop token with
    | true =>
        have inside : ¬ stop < token.stop := UInt32.not_lt.mpr (of_decide_eq_true holds)
        rw [if_neg (not_or.mpr ⟨boundary, inside⟩), Option.filter_some, if_pos holds]
        rfl
    | false =>
        have past : stop < token.stop := UInt32.not_le.mp (of_decide_eq_false holds)
        rw [if_pos (Or.inr past), Option.filter_some, if_neg (Bool.eq_false_iff.mp holds)]
        rfl

theorem shorten_eq_ok (before : List Token) {after : List Token} {start stop : UInt32}
    (le : start ≤ stop) (past : ∀ token ∈ after, stop < token.stop)
    (fits : 2 * (before.length + after.length) < indexSize) :
    adjust (sub · (stop - start)) (Packed.wordsOfTokens (before ++ after)) before.length
        after.length =
      .ok (Packed.wordsOfTokens (before ++ after.map (Token.retreat (stop - start)))) := by
  have changes : ∀ token ∈ after, sub token.stop (stop - start) =
      .ok (token.retreat (stop - start)).stop := by
    intro token member
    exact sub_eq_ok (UInt32.le_trans (sub_le le) (UInt32.le_of_lt (past token member)))
  exact adjust_eq_ok (sub · (stop - start)) (Token.retreat (stop - start)) (fun _ => rfl) before
    fits changes

theorem sever_eq_ok (before : List Token) (token : Token) (rest : List Token)
    (begins start : UInt32) (fits : 2 * (before.length + 1) < indexSize) :
    ∃ kept gone : List Token, kept = (if begins = start then [] else [token.cutAt start]) ∧
      (before ++ kept).length + gone.length = before.length + 1 ∧
      sever (Packed.wordsOfTokens (before ++ token :: rest)) before.length begins start =
        .ok (Packed.wordsOfTokens (before ++ kept ++ (gone ++ rest)),
          2 * (before ++ kept).length) := by
  have place := mulIndex_two (n := before.length) (by omega)
  unfold sever
  by_cases boundary : begins = start
  · refine ⟨[], [token], (if_pos boundary).symm, ?_, ?_⟩
    · rw [List.append_nil]
      rfl
    · rw [if_neg (fun differ => differ boundary), place, ok_bind, List.append_nil]
      rfl
  · have next : addIndex before.length 1 = .ok (before.length + 1) := addIndex_eq_ok (by omega)
    refine ⟨[token.cutAt start], [], (if_neg boundary).symm, List.length_append, ?_⟩
    rw [if_pos boundary, place, ok_bind, write_stop, ok_bind, next, ok_bind, mulIndex_two fits,
      ok_bind, List.length_append, List.append_assoc]
    rfl

theorem swallow_eq_ok (before : List Token) (token : Token) {rest : List Token}
    {begins start stop : UInt32} (le : start ≤ stop) (increasing : Increasing rest)
    (fits : 2 * (before.length + (rest.length + 1)) + 2 < indexSize) :
    swallow (Packed.wordsOfTokens (before ++ token :: rest)) (before.length + (rest.length + 1))
        before.length begins start (stop - start) =
      .ok (Packed.wordsOfTokens
        (before ++ (if begins = start then [] else [token.cutAt start]) ++
          (rest.dropWhile (Tiling.stopsBy stop)).map (Token.retreat (stop - start)))) := by
  rcases sever_eq_ok before token rest begins start (by omega) with
    ⟨kept, gone, same, count, severed⟩
  rcases compact_eq_ok (stop - start) start (before ++ kept) gone rest (by omega) with
    ⟨left, run⟩
  have next : addIndex before.length 1 = .ok (before.length + 1) := addIndex_eq_ok (by omega)
  have remaining : before.length + (rest.length + 1) - (before.length + 1) = rest.length := by
    omega
  rw [count] at run
  rw [swallow, severed, ok_bind]
  simp only
  rw [next, ok_bind, remaining, run, ok_bind]
  simp only
  rw [pure_eq_ok, Packed.take_wordsOfTokens, survivors_eq le increasing, same]

/-- What the cut reads off the words before it changes them. -/
theorem cut_eq {t : Tiling} {start stop : UInt32} {before rest : List Token} {token : Token}
    (lt : start < stop) (list : t.toList = before ++ token :: rest)
    (index : t.indexAt start = before.length) :
    t.buffer.cut start stop =
      if stop < token.stop then do
        let words ← adjust (sub · (stop - start)) (Packed.wordsOfTokens (before ++ token :: rest))
          before.length (token :: rest).length
        return ⟨words⟩
      else do
        let words ← swallow (Packed.wordsOfTokens (before ++ token :: rest))
          (before.length + (rest.length + 1)) before.length
          (Tiling.reach (t.tokens.take before.length)) start (stop - start)
        return ⟨words⟩ := by
  have count : t.toList.length = before.length + (rest.length + 1) := by
    rw [list, List.length_append, List.length_cons]
  have here : t.toList[before.length]? = some token := by
    rw [list, List.getElem?_append_right (Nat.le_refl _), Nat.sub_self]
    rfl
  have words : t.buffer.words = Packed.wordsOfTokens (before ++ token :: rest) := by
    rw [← list]
    rfl
  rw [cut, indexAt_buffer, ok_bind, index, start_buffer t (by omega), ok_bind, stop_buffer here,
    ok_bind, sub_eq_ok (UInt32.le_of_lt lt), ok_bind, words, size_buffer, count,
    Nat.add_sub_cancel_left]
  rfl

theorem cut_eq_ok {t : Tiling} {start stop : UInt32} (lt : start < stop) (le : stop ≤ t.length) :
    t.buffer.cut start stop =
      .ok ⟨Packed.wordsOfTokens (t.cutTokens start stop).toList⟩ := by
  have order := UInt32.le_of_lt lt
  have whole := List.takeWhile_append_dropWhile (p := Tiling.stopsBy start) (l := t.toList)
  have later := t.dropWhile_stopsBy order
  rcases indexAt_of_lt (UInt32.lt_of_lt_of_le lt le) with ⟨token, rest, after, index⟩
  have severed := severed?_eq stop after
  have leads : leading t.tokens (Tiling.stopsBy start) =
      t.tokens.take (t.toList.takeWhile (Tiling.stopsBy start)).length := by
    rw [leading, partitionPoint_eq (t.partitioned_stopsBy start)]
    rfl
  rw [after] at whole later
  rw [leads] at severed
  rw [cut_eq lt whole.symm index, Tiling.toList_cutTokens, later, severed]
  have increasing := t.ordered
  rw [← Tiling.toList, ← whole] at increasing
  have fits : 2 * ((t.toList.takeWhile (Tiling.stopsBy start)).length + (rest.length + 1)) + 2 <
      indexSize := by
    apply index_lt t
    rw [← List.length_cons, ← List.length_append, whole]
    omega
  split
  case isTrue inside =>
    have stays : Tiling.stopsBy stop token = false := decide_eq_false (UInt32.not_le.mpr inside)
    rw [List.dropWhile_cons_of_neg (Bool.eq_false_iff.mp stays)] at later ⊢
    have past : ∀ other ∈ token :: rest, stop < other.stop := by
      intro other member
      rw [← later] at member
      exact UInt32.lt_iff_toNat_lt.mpr (Tiling.stop_of_mem_dropWhile member)
    rw [shorten_eq_ok _ order past (Nat.lt_of_le_of_lt (Nat.le_add_right _ 2) fits), ok_bind,
      if_pos (Or.inr inside), Option.toList_none, List.append_nil]
    rfl
  case isFalse across =>
    have gone : Tiling.stopsBy stop token = true := decide_eq_true (UInt32.not_lt.mp across)
    have ordered := (List.pairwise_cons.mp (List.pairwise_append.mp increasing).2.1).2
    rw [List.dropWhile_cons_of_pos gone, swallow_eq_ok _ token order ordered fits, ok_bind]
    by_cases boundary : Tiling.reach (t.tokens.take
        (t.toList.takeWhile (Tiling.stopsBy start)).length) = start
    · rw [if_pos boundary, if_pos (Or.inl boundary)]
      rfl
    · rw [if_neg boundary, if_neg (not_or.mpr ⟨boundary, across⟩)]
      rfl

/-!
## Deletion
-/

theorem delete_eq_ok (t : Tiling) (start stop : UInt32) :
    t.buffer.delete start stop = .ok ((t.delete start stop).map Tiling.buffer) := by
  unfold delete Tiling.delete
  rw [isEmpty_buffer]
  split
  case isTrue bare =>
    rfl
  case isFalse filled =>
    rw [length_buffer, ok_bind]
    by_cases range : start ≤ stop ∧ stop ≤ t.length
    · have inside : ¬ (stop < start ∨ t.length < stop) := by
        rw [not_or, UInt32.not_lt, UInt32.not_lt]
        exact range
      rw [if_neg inside, dif_pos range]
      split
      case isTrue same =>
        rfl
      case isFalse differ =>
        split
        case isTrue whole =>
          rfl
        case isFalse part =>
          rw [cut_eq_ok (UInt32.lt_of_le_of_ne range.1 differ) range.2]
          rfl
    · have outside : stop < start ∨ t.length < stop := by
        rw [← UInt32.not_le, ← UInt32.not_le]
        exact Decidable.not_and_iff_not_or_not.mp range
      rw [if_pos outside, dif_neg range]
      rfl

theorem deleteBeginning_eq_ok (t : Tiling) (stop : UInt32) :
    t.buffer.deleteBeginning stop = .ok ((t.deleteBeginning stop).map Tiling.buffer) :=
  delete_eq_ok t 0 stop

theorem deleteEnding_eq_ok (t : Tiling) (start : UInt32) :
    t.buffer.deleteEnding start = .ok ((t.deleteEnding start).map Tiling.buffer) := by
  rw [deleteEnding, length_buffer]
  exact delete_eq_ok t start t.length

end Buffer

end TiledText
