import TiledText.Proofs.Buffer.Joining
import TiledText.Proofs.Success

/-!
# Dividing a line and joining it again

A line is divided when one copy of it loses its end and another loses its beginning, both
at the same offset. Without a hairline the two parts are read off the tokens. Those that
stop by the offset are in the first part, those that stop after it are in the second, moved
back, and a token that has the offset in its inside is in both.

So the parts can be joined again, and what has been joined can be divided again. Only a
token that was cut in two stays so.
-/

namespace TiledText

theorem Buffer.eq_ok_of_tiling {result : Checked (Except TilingError Buffer)}
    {made : Except TilingError Tiling} {u : Tiling}
    (same : result = .ok (made.map Tiling.buffer)) (done : made = .ok u) :
    result = .ok (.ok u.buffer) := by
  rw [same, done]
  rfl

namespace Tiling

variable {t u v : Tiling} {offset start stop : UInt32}

/-!
## Edges
-/

/-- The offset is the beginning of the line, or a token stops there. -/
def Edge (t : Tiling) (offset : UInt32) : Prop :=
  offset = 0 ∨ ∃ token ∈ t.toList, token.stop = offset

theorem exists_stop_eq_length (nonempty : t.isEmpty = false) :
    ∃ token ∈ t.toList, token.stop = t.length := by
  unfold length reach
  cases back : t.tokens.back? with
  | none =>
      have bare : t.tokens = #[] := by simpa using back
      simp [isEmpty, bare] at nonempty
  | some last =>
      exact ⟨last, Array.mem_def.mp (Array.mem_of_back? back), rfl⟩

theorem edge_length (t : Tiling) : t.Edge t.length := by
  cases known : t.isEmpty with
  | true =>
      rw [isEmpty_iff.mp known]
      exact Or.inl rfl
  | false =>
      exact Or.inr (exists_stop_eq_length known)

theorem severed?_of_edge (edge : t.Edge start) (stop : UInt32) : t.severed? start stop = none := by
  rcases edge with zero | ⟨token, member, same⟩
  · rw [zero, severed?_zero]
  · unfold severed?
    apply if_neg
    intro begins
    have leads := toList_leading (t.partitioned_stopsBy start)
    have kept : token ∈ t.toList.takeWhile (stopsBy start) := by
      rw [← List.takeWhile_append_dropWhile (p := stopsBy start) (l := t.toList)] at member
      cases List.mem_append.mp member with
      | inl before =>
          exact before
      | inr after =>
          have past := stop_of_mem_dropWhile after
          rw [same] at past
          exact absurd past (Nat.lt_irrefl _)
    have reached : token.stop ≤ reach (leading t.tokens (stopsBy start)) := by
      refine stop_le_reach ?_ (Array.mem_def.mpr ?_)
      · rw [leads]
        exact t.ordered.sublist (List.takeWhile_sublist _)
      · rw [leads]
        exact kept
    rw [same] at reached
    exact UInt32.not_lt.mpr reached begins

/-!
## Tokens with one of them divided

Tokens that stop before the offset, and those that begin at it or later, stay whole.
-/

/-- The tokens of spans, two of them for a span that has the offset in its inside. -/
def dividedAt (offset : UInt32) (spans : List Span) : List Token :=
  spans.flatMap fun span =>
    if span.start < offset ∧ offset < span.stop then
      [⟨offset, span.tag⟩, ⟨span.stop, span.tag⟩]
    else
      [⟨span.stop, span.tag⟩]

theorem dividedAt_cons_of_edge {span : Span} (rest : List Span)
    (edge : span.stop ≤ offset ∨ offset ≤ span.start) :
    dividedAt offset (span :: rest) = ⟨span.stop, span.tag⟩ :: dividedAt offset rest := by
  have outside : ¬ (span.start < offset ∧ offset < span.stop) := by
    intro inside
    cases edge with
    | inl before =>
        exact UInt32.not_lt.mpr before inside.2
    | inr after =>
        exact UInt32.not_lt.mpr after inside.1
  rw [dividedAt, List.flatMap_cons, if_neg outside]
  rfl

theorem dividedAt_before {tokens : List Token} (before : ∀ token ∈ tokens, token.stop ≤ offset)
    (begins : UInt32) : dividedAt offset (spansFrom begins tokens) = tokens := by
  induction tokens generalizing begins with
  | nil =>
      rfl
  | cons token rest ih =>
      have later := ih (fun other member => before other (List.mem_cons_of_mem _ member)) token.stop
      rw [spansFrom, dividedAt_cons_of_edge _ (Or.inl (before token (List.mem_cons_self ..))),
        later]

theorem dividedAt_after {begins : UInt32} (after : offset ≤ begins) {tokens : List Token}
    (later : ∀ token ∈ tokens, offset ≤ token.stop) :
    dividedAt offset (spansFrom begins tokens) = tokens := by
  induction tokens generalizing begins with
  | nil =>
      rfl
  | cons token rest ih =>
      have further := ih (later token (List.mem_cons_self ..))
        fun other member => later other (List.mem_cons_of_mem _ member)
      rw [spansFrom, dividedAt_cons_of_edge _ (Or.inr after), further]

/-- Of the tokens that stop after the offset the first is divided, unless it begins there. -/
theorem dividedAt_across {begins : UInt32} (upTo : begins ≤ offset) {token : Token}
    {rest : List Token} (past : ∀ other ∈ token :: rest, offset < other.stop) :
    dividedAt offset (spansFrom begins (token :: rest)) =
      (if begins = offset then none else some (token.cutAt offset)).toList ++ token :: rest := by
  have first := past token (List.mem_cons_self ..)
  have stays := dividedAt_after (UInt32.le_of_lt first) fun other member =>
    UInt32.le_of_lt (past other (List.mem_cons_of_mem _ member))
  rw [spansFrom]
  by_cases boundary : begins = offset
  · rw [if_pos boundary, dividedAt_cons_of_edge _ (Or.inr (UInt32.le_of_eq boundary.symm)), stays]
    rfl
  · have inside := UInt32.lt_of_le_of_ne upTo boundary
    rw [if_neg boundary, dividedAt, List.flatMap_cons, if_pos ⟨inside, first⟩]
    exact congrArg ([token.cutAt offset, token] ++ ·) stays

theorem severed?_of_nil (shape : t.toList.dropWhile (stopsBy start) = []) (stop : UInt32) :
    t.severed? start stop = none := by
  have first := head?_dropWhile (t.partitioned_stopsBy start)
  rw [shape, List.head?_nil] at first
  rw [severed?, ← first]
  exact ite_self _

theorem lt_stop_of_dropWhile {token : Token} {rest : List Token}
    (shape : t.toList.dropWhile (stopsBy offset) = token :: rest) :
    ∀ other ∈ token :: rest, offset < other.stop := by
  intro other member
  rw [← shape] at member
  exact UInt32.lt_iff_toNat_lt.mpr (stop_of_mem_dropWhile member)

/-- What is divided is the token that a cut from the offset to the end severs. -/
theorem dividedAt_spans (t : Tiling) (offset : UInt32) :
    dividedAt offset t.spans =
      t.toList.takeWhile (stopsBy offset) ++ (t.severed? offset t.length).toList ++
        t.toList.dropWhile (stopsBy offset) := by
  have whole := List.takeWhile_append_dropWhile (p := stopsBy offset) (l := t.toList)
  have before : ∀ token ∈ t.toList.takeWhile (stopsBy offset), token.stop ≤ offset := by
    intro token member
    exact UInt32.le_iff_toNat_le.mpr (stop_of_mem_takeWhile member)
  have parts : dividedAt offset t.spans = t.toList.takeWhile (stopsBy offset) ++
      dividedAt offset (spansFrom (endFrom 0 (t.toList.takeWhile (stopsBy offset)))
        (t.toList.dropWhile (stopsBy offset))) := by
    conv => lhs; rw [spans, ← whole, spansFrom_append, dividedAt, List.flatMap_append]
    exact congrArg (· ++ _) (dividedAt_before before 0)
  rw [parts, List.append_assoc]
  congr 1
  cases shape : t.toList.dropWhile (stopsBy offset) with
  | nil =>
      rw [severed?_of_nil shape]
      rfl
  | cons token rest =>
      have reached : reach (leading t.tokens (stopsBy offset)) =
          endFrom 0 (t.toList.takeWhile (stopsBy offset)) := by
        rw [reach_eq_endFrom, toList_leading (t.partitioned_stopsBy offset)]
        rfl
      have upTo := Buffer.reach_leading_le t offset
      have member : token ∈ t.toList := by
        rw [← whole, shape]
        exact List.mem_append_right _ (List.mem_cons_self ..)
      have within : ¬ t.length < token.stop :=
        UInt32.not_lt.mpr (t.stop_le_length (Array.mem_def.mpr member))
      rw [reached] at upTo
      rw [dividedAt_across upTo (lt_stop_of_dropWhile shape), Buffer.severed?_eq t.length shape,
        reached]
      simp only [within, or_false]

theorem dividedAt_of_edge (edge : t.Edge offset) : dividedAt offset t.spans = t.toList := by
  rw [dividedAt_spans, severed?_of_edge edge, Option.toList_none, List.append_nil,
    List.takeWhile_append_dropWhile]

/-!
## The two parts

Each part is what a deletion of the other one leaves.
-/

theorem cutTokens_self (t : Tiling) (offset : UInt32) :
    (t.cutTokens offset offset).toList = t.toList := by
  have still : Token.retreat (offset - offset) = id := by
    funext token
    simp [Token.retreat]
  have unsevered : t.severed? offset offset = none := by
    cases shape : t.toList.dropWhile (stopsBy offset) with
    | nil =>
        exact severed?_of_nil shape offset
    | cons token rest =>
        have past := lt_stop_of_dropWhile shape token (List.mem_cons_self ..)
        rw [Buffer.severed?_eq offset shape, if_pos (Or.inr past)]
  rw [toList_cutTokens, unsevered, still, Option.toList_none, List.append_nil, List.map_id,
    List.takeWhile_append_dropWhile]

theorem takeWhile_stopsBy_zero (plain : t.hairline = false) :
    t.toList.takeWhile (stopsBy 0) = [] := by
  rw [List.eq_nil_iff_forall_not_mem]
  intro token member
  have zero := Nat.le_zero.mp (stop_of_mem_takeWhile member)
  exact stop_ne_zero plain ((List.takeWhile_sublist _).subset member) zero

theorem dropWhile_stopsBy_length (t : Tiling) : t.toList.dropWhile (stopsBy t.length) = [] := by
  rw [List.eq_nil_iff_forall_not_mem]
  intro token member
  have bound := t.stop_le_length
    (Array.mem_def.mpr ((List.dropWhile_sublist (stopsBy t.length)).subset member))
  exact Nat.not_lt_of_le (UInt32.le_iff_toNat_le.mp bound) (stop_of_mem_dropWhile member)

/-- Without a hairline every deletion that succeeds is a cut, also that of the whole line. -/
theorem toList_delete_of_plain (plain : t.hairline = false)
    (deleted : t.delete start stop = .ok u) : u.toList = (t.cutTokens start stop).toList := by
  rcases delete_cases deleted with ⟨bare, same⟩ | ⟨_, _, _, outcome⟩
  · rw [same, isEmpty_iff.mp bare, toList_cutTokens]
    have nothing : empty.severed? start stop = none := by
      simp [severed?, empty]
    rw [nothing]
    rfl
  · rcases outcome with ⟨equal, same⟩ | ⟨_, first, last, cleared⟩ | ⟨_, _, cut⟩
    · rw [same, equal, cutTokens_self]
    · rw [cleared, first, last, toList_cutTokens, takeWhile_stopsBy_zero plain, severed?_zero,
        dropWhile_stopsBy_length]
      rfl
    · rw [toList, cut]

theorem toList_deleteEnding (plain : t.hairline = false)
    (deleted : t.deleteEnding offset = .ok u) :
    u.toList = t.toList.takeWhile (stopsBy offset) ++ (t.severed? offset t.length).toList := by
  rw [toList_delete_of_plain plain deleted, toList_cutTokens, dropWhile_stopsBy_length,
    List.map_nil, List.append_nil]

theorem toList_deleteBeginning (plain : t.hairline = false)
    (deleted : t.deleteBeginning offset = .ok u) :
    u.toList = (t.toList.dropWhile (stopsBy offset)).map (Token.retreat offset) := by
  rw [toList_delete_of_plain plain deleted, toList_cutTokens, takeWhile_stopsBy_zero plain,
    severed?_zero, UInt32.sub_zero]
  rfl

/-!
## Joining the parts
-/

theorem grow_retreat (width : UInt32) : Token.grow width ∘ Token.retreat width = id := by
  funext token
  simp [Token.grow, Token.retreat]

theorem retreat_grow (width : UInt32) : Token.retreat width ∘ Token.grow width = id := by
  funext token
  simp [Token.grow, Token.retreat]

theorem exists_rejoined (plain : t.hairline = false) (inside : offset ≤ t.length) :
    ∃ front back whole, t.deleteEnding offset = .ok front ∧
      t.deleteBeginning offset = .ok back ∧ front.append back = .ok whole ∧
      whole.toList = dividedAt offset t.spans := by
  rcases t.deleteEnding_eq_ok inside with ⟨front, ending⟩
  rcases t.deleteBeginning_eq_ok inside with ⟨back, beginning⟩
  have ends := length_deleteEnding inside ending
  have fits : Fits front.length back.length := by
    have bound := UInt32.le_iff_toNat_le.mp inside
    rw [Fits, ends, length_deleteBeginning beginning, Nat.add_sub_cancel' bound]
    exact UInt32.toNat_lt_size _
  rcases append_eq_ok fits (Or.inr (plain_delete beginning plain)) with ⟨whole, joined⟩
  refine ⟨front, back, whole, ending, beginning, joined, ?_⟩
  rw [toList_append joined, ends, toList_deleteEnding plain ending,
    toList_deleteBeginning plain beginning, List.map_map, grow_retreat, List.map_id,
    dividedAt_spans]

/-!
## Dividing what was joined

The tokens of a joined line are told apart by where the first line ends. Its own tokens stop
by then, and those of the second line after it.
-/

theorem split_of_append (plain : u.hairline = false) (joined : t.append u = .ok v) :
    v.toList.takeWhile (stopsBy t.length) = t.toList ∧
      v.toList.dropWhile (stopsBy t.length) = u.toList.map (Token.grow t.length) := by
  have early : ∀ token ∈ t.toList, stopsBy t.length token = true := by
    intro token member
    exact decide_eq_true (t.stop_le_length (Array.mem_def.mpr member))
  have late : ∀ token ∈ u.toList, ¬ stopsBy t.length (token.grow t.length) = true := by
    intro token member
    have fits : Fits u.length t.length := by
      have length := length_append joined
      rw [Fits, Nat.add_comm, ← length]
      exact UInt32.toNat_lt_size _
    have grown := toNat_stop_grow fits (u.stop_le_length (Array.mem_def.mpr member))
    have wide := stop_ne_zero plain member
    rw [stopsBy, decide_eq_true_eq, UInt32.le_iff_toNat_le, grown]
    omega
  rw [toList_append joined, List.takeWhile_append_of_pos early, List.dropWhile_append_of_pos early]
  cases tokens : u.toList with
  | nil =>
      simp
  | cons token rest =>
      have first := late token (by simp [tokens])
      simp [first]

theorem edge_of_append (joined : t.append u = .ok v) : v.Edge t.length := by
  rcases t.edge_length with zero | ⟨token, member, same⟩
  · exact Or.inl zero
  · refine Or.inr ⟨token, ?_, same⟩
    rw [toList_append joined]
    exact List.mem_append_left _ member

theorem ext_toList (same : t.toList = u.toList) : t = u :=
  Tiling.ext (Array.toList_inj.mp same)

theorem length_le_of_append (joined : t.append u = .ok v) : t.length ≤ v.length := by
  rw [UInt32.le_iff_toNat_le, length_append joined]
  exact Nat.le_add_right _ _

theorem deleteEnding_of_append (first : t.hairline = false) (second : u.hairline = false)
    (joined : t.append u = .ok v) : v.deleteEnding t.length = .ok t := by
  rcases v.deleteEnding_eq_ok (length_le_of_append joined) with ⟨front, ending⟩
  have plain := hairline_append joined first second
  have same : front = t := by
    apply ext_toList
    rw [toList_deleteEnding plain ending, severed?_of_edge (edge_of_append joined),
      (split_of_append second joined).1]
    exact List.append_nil _
  rw [ending, same]

theorem deleteBeginning_of_append (first : t.hairline = false) (second : u.hairline = false)
    (joined : t.append u = .ok v) : v.deleteBeginning t.length = .ok u := by
  rcases v.deleteBeginning_eq_ok (length_le_of_append joined) with ⟨back, beginning⟩
  have plain := hairline_append joined first second
  have same : back = u := by
    apply ext_toList
    rw [toList_deleteBeginning plain beginning, (split_of_append second joined).2, List.map_map,
      retreat_grow, List.map_id]
  rw [beginning, same]

/-!
## Both ways

Dividing and joining undo each other, in buffers as in tilings, where there is no hairline. A
line can be divided at any offset in it and joined again. Then the token that had the offset in
its inside is two tokens, and at the beginning, at the end or between two tokens the line is
what it was. Two lines that fit together can be joined and divided again where the first one
ends, and they are what they were.
-/

theorem append_of_divided (plain : t.hairline = false) :
    (∀ offset, offset ≤ t.length → ∃ front back whole,
        t.deleteEnding offset = .ok front ∧ t.deleteBeginning offset = .ok back ∧
        front.append back = .ok whole ∧
        t.buffer.deleteEnding offset = .ok (.ok front.buffer) ∧
        t.buffer.deleteBeginning offset = .ok (.ok back.buffer) ∧
        front.buffer.append back.buffer = .ok (.ok whole.buffer) ∧
        whole.toList = dividedAt offset t.spans ∧
        (offset = 0 ∨ offset = t.length ∨ (∃ token ∈ t.toList, token.stop = offset) →
          whole = t)) ∧
      ∀ u, u.hairline = false → t.length.toNat + u.length.toNat < UInt32.size →
        ∃ whole, t.append u = .ok whole ∧
          whole.deleteEnding t.length = .ok t ∧ whole.deleteBeginning t.length = .ok u ∧
          t.buffer.append u.buffer = .ok (.ok whole.buffer) ∧
          whole.buffer.deleteEnding t.length = .ok (.ok t.buffer) ∧
          whole.buffer.deleteBeginning t.length = .ok (.ok u.buffer) := by
  constructor
  · intro offset inside
    rcases exists_rejoined plain inside with ⟨front, back, whole, ending, beginning, joined, tokens⟩
    refine ⟨front, back, whole, ending, beginning, joined, ?_, ?_, ?_, tokens, ?_⟩
    · exact Buffer.eq_ok_of_tiling (Buffer.deleteEnding_eq_ok t offset) ending
    · exact Buffer.eq_ok_of_tiling (Buffer.deleteBeginning_eq_ok t offset) beginning
    · exact Buffer.eq_ok_of_tiling (Buffer.append_eq_ok front back) joined
    · intro edge
      have edge : t.Edge offset := by
        rcases edge with zero | last | found
        · exact Or.inl zero
        · rw [last]
          exact t.edge_length
        · exact Or.inr found
      apply ext_toList
      rw [tokens, dividedAt_of_edge edge]
  · intro u second fits
    rcases append_eq_ok fits (Or.inr second) with ⟨whole, joined⟩
    have ending := deleteEnding_of_append plain second joined
    have beginning := deleteBeginning_of_append plain second joined
    refine ⟨whole, joined, ending, beginning, ?_, ?_, ?_⟩
    · exact Buffer.eq_ok_of_tiling (Buffer.append_eq_ok t u) joined
    · exact Buffer.eq_ok_of_tiling (Buffer.deleteEnding_eq_ok whole t.length) ending
    · exact Buffer.eq_ok_of_tiling (Buffer.deleteBeginning_eq_ok whole t.length) beginning

/-- In the inside of a token two tokens are left, at its edge the line is as it was. -/
theorem append_of_divided_words :
    (∃ front back whole, twoWords.deleteEnding 4 = .ok front ∧
        twoWords.deleteBeginning 4 = .ok back ∧ front.append back = .ok whole ∧
        whole.toList = [⟨3, 1⟩, ⟨4, 2⟩, ⟨6, 2⟩]) ∧
      (∃ front back, twoWords.deleteEnding 3 = .ok front ∧ twoWords.deleteBeginning 3 = .ok back ∧
        front.append back = .ok twoWords) ∧
      ∃ whole, twoWords.append twoWords = .ok whole ∧
        whole.buffer.deleteEnding 6 = .ok (.ok twoWords.buffer) ∧
        whole.buffer.deleteBeginning 6 = .ok (.ok twoWords.buffer) := by
  rcases append_of_divided (t := twoWords) (by decide) with ⟨apart, together⟩
  refine ⟨?_, ?_, ?_⟩
  · rcases apart 4 (by decide) with ⟨front, back, whole, ending, beginning, joined, _, _, _, law, _⟩
    exact ⟨front, back, whole, ending, beginning, joined, law.trans (by decide)⟩
  · rcases apart 3 (by decide) with
      ⟨front, back, whole, ending, beginning, joined, _, _, _, _, same⟩
    rw [same (Or.inr (Or.inr (by decide)))] at joined
    exact ⟨front, back, ending, beginning, joined⟩
  · rcases together twoWords (by decide) (by decide) with
      ⟨whole, joined, _, _, _, ending, beginning⟩
    exact ⟨whole, joined, ending, beginning⟩

end Tiling

end TiledText
