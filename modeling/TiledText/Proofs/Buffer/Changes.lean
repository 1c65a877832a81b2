import TiledText.Proofs.Buffer.Fusing

/-!
# Insertions and deletions in sequence

An insertion moves the offsets of a line as a deletion does. Those before the room stay and
all others move on by its width, also the one at which the room is made. No two of them come
together, so every token keeps its place in the sequence, and only its end is moved.

When the room is taken out again, every offset is back where it was. A token is lost only if
it got all of its units from the room, and that is a hairline in front of which room was made.
-/

namespace TiledText

/-!
## Changes
-/

inductive Change where
  | insert (offset width : UInt32)
  | delete (start stop : UInt32)
deriving DecidableEq, Repr

namespace Tiling

def change (t : Tiling) : Change → Except TilingError Tiling
  | .insert offset width => t.insert offset width
  | .delete start stop => t.delete start stop

def changeEach (t : Tiling) : List Change → Except TilingError Tiling
  | [] => .ok t
  | first :: rest => do
      let u ← t.change first
      u.changeEach rest

end Tiling

namespace Buffer

def change (b : Buffer) : Change → Checked (Except TilingError Buffer)
  | .insert offset width => b.insert offset width
  | .delete start stop => b.delete start stop

def changeEach (b : Buffer) : List Change → Checked (Except TilingError Buffer)
  | [] => .ok (.ok b)
  | first :: rest => do
      match ← b.change first with
      | .ok c => c.changeEach rest
      | .error cause => return .error cause

theorem change_eq_ok (t : Tiling) (change : Change) :
    t.buffer.change change = .ok ((t.change change).map Tiling.buffer) := by
  cases change with
  | insert offset width =>
      exact Buffer.insert_eq_ok t offset width
  | delete start stop =>
      exact Buffer.delete_eq_ok t start stop

theorem changeEach_eq_ok (t : Tiling) (changes : List Change) :
    t.buffer.changeEach changes = .ok ((t.changeEach changes).map Tiling.buffer) := by
  induction changes generalizing t with
  | nil =>
      rfl
  | cons first rest ih =>
      rw [changeEach, Tiling.changeEach, change_eq_ok]
      cases t.change first with
      | error cause =>
          rfl
      | ok u =>
          exact ih u

end Buffer

/-- No change is refused, and they lead from the one to the other, in buffers as in tilings. -/
structure Tiling.LeadsTo (t : Tiling) (changes : List Change) (u : Tiling) : Prop where
  tiling : t.changeEach changes = .ok u
  buffer : t.buffer.changeEach changes = .ok (.ok u.buffer)

theorem Tiling.leadsTo_of_two {t u v : Tiling} {first second : Change}
    (one : t.change first = .ok u) (two : u.change second = .ok v) :
    t.LeadsTo [first, second] v := by
  have made : t.changeEach [first, second] = .ok v := by
    rw [changeEach, one]
    show (u.change second >>= _) = _
    rw [two]
    rfl
  exact ⟨made, Buffer.eq_ok_of_tiling (Buffer.changeEach_eq_ok t _) made⟩

/-!
## Where offsets go

Room moves on the offsets behind it. The wider line is not too long, so none of them wraps
around, no two come together, and none overtakes another.
-/

/-- Where an offset lies when room for `width` units is made at `place`. -/
def offsetWith (place width offset : UInt32) : UInt32 :=
  if offset < place then offset else offset + width

variable {place width offset limit : UInt32}

theorem toNat_offsetWith (fits : Tiling.Fits limit width) (inside : offset ≤ limit)
    (place : UInt32) :
    (offset.toNat < place.toNat ∧ (offsetWith place width offset).toNat = offset.toNat) ∨
      (place.toNat ≤ offset.toNat ∧
        (offsetWith place width offset).toNat = offset.toNat + width.toNat) := by
  unfold offsetWith
  split
  case isTrue before =>
    exact Or.inl ⟨UInt32.lt_iff_toNat_lt.mp before, rfl⟩
  case isFalse after =>
    have sum := Tiling.toNat_add_of_fits inside fits
    exact Or.inr ⟨UInt32.le_iff_toNat_le.mp (UInt32.not_lt.mp after), sum⟩

theorem offsetWith_lt_iff (fits : Tiling.Fits limit width) {a b : UInt32} (one : a ≤ limit)
    (other : b ≤ limit) (place : UInt32) :
    offsetWith place width a < offsetWith place width b ↔ a < b := by
  have first := toNat_offsetWith fits one place
  have second := toNat_offsetWith fits other place
  rw [UInt32.lt_iff_toNat_lt, UInt32.lt_iff_toNat_lt]
  omega

theorem offsetWith_inj (fits : Tiling.Fits limit width) {a b : UInt32} (one : a ≤ limit)
    (other : b ≤ limit) {place : UInt32}
    (same : offsetWith place width a = offsetWith place width b) : a = b := by
  apply UInt32.le_antisymm
  · rw [← UInt32.not_lt, ← offsetWith_lt_iff fits other one place, same]
    exact UInt32.lt_irrefl _
  · rw [← UInt32.not_lt, ← offsetWith_lt_iff fits one other place, same]
    exact UInt32.lt_irrefl _

theorem offsetWith_of_lt (before : offset < place) : offsetWith place width offset = offset :=
  if_pos before

/-!
## Tokens and spans with moved ends

A cut of spans with moved ends is compared with another cut of the spans as they were.
-/

def Token.moved (move : UInt32 → UInt32) (token : Token) : Token :=
  { token with stop := move token.stop }

namespace Span

def moved (move : UInt32 → UInt32) (span : Span) : Span :=
  ⟨move span.start, move span.stop, span.tag⟩

/-- The span does not run backwards, and it lies before the limit. -/
structure Within (limit : UInt32) (span : Span) : Prop where
  order : span.start ≤ span.stop
  bound : span.stop ≤ limit

end Span

namespace Tiling

variable {t u v : Tiling}

theorem spansFrom_moved (move : UInt32 → UInt32) (begins : UInt32) (tokens : List Token) :
    spansFrom (move begins) (tokens.map (Token.moved move)) =
      (spansFrom begins tokens).map (Span.moved move) := by
  induction tokens generalizing begins with
  | nil =>
      rfl
  | cons token rest ih =>
      exact congrArg (Span.moved move ⟨begins, token.stop, token.tag⟩ :: ·) (ih token.stop)

theorem within_of_mem_spansFrom {tokens : List Token} {begins : UInt32}
    (increasing : Increasing tokens) (after : ∀ token ∈ tokens, begins ≤ token.stop)
    (inside : ∀ token ∈ tokens, token.stop ≤ limit) {span : Span}
    (member : span ∈ spansFrom begins tokens) : span.Within limit := by
  induction tokens generalizing begins with
  | nil =>
      cases member
  | cons token rest ih =>
      have split := List.pairwise_cons.mp increasing
      rcases List.mem_cons.mp member with rfl | later
      · exact ⟨after token (List.mem_cons_self ..), inside token (List.mem_cons_self ..)⟩
      · apply ih split.2 _ _ later
        · exact fun other member => UInt32.le_of_lt (split.1 other member)
        · exact fun other member => inside other (List.mem_cons_of_mem _ member)

theorem within_of_mem_spans {span : Span} (member : span ∈ t.spans) : span.Within t.length := by
  apply within_of_mem_spansFrom t.ordered _ _ member
  · exact fun token _ => UInt32.zero_le
  · exact fun token inside => t.stop_le_length (Array.mem_def.mpr inside)

theorem toList_insert (inserted : t.insert place width = .ok u) :
    u.toList = t.toList.map (Token.moved (offsetWith place width)) := by
  have early : ∀ token ∈ t.toList.takeWhile (stopsBefore place),
      Token.moved (offsetWith place width) token = token := by
    intro token member
    have before := UInt32.lt_iff_toNat_lt.mpr (stop_of_mem_takeWhile_stopsBefore member)
    rw [Token.moved, offsetWith_of_lt before]
  have late : ∀ token ∈ t.toList.dropWhile (stopsBefore place),
      Token.moved (offsetWith place width) token = token.grow width := by
    intro token member
    have after := UInt32.le_iff_toNat_le.mpr (stop_of_mem_dropWhile_stopsBefore member)
    rw [Token.moved, offsetWith, if_neg (UInt32.not_lt.mpr after)]
    rfl
  rw [toList, tokens_insert inserted, toList_widenTokens]
  conv => rhs; rw [← List.takeWhile_append_dropWhile (p := stopsBefore place) (l := t.toList)]
  rw [List.map_append, List.map_congr_left early, List.map_id', List.map_congr_left late]

/--
When a cut is made where the offsets have moved, what it spares is what another cut spares
where they have not, moved again. The cuts have to agree on where the offsets go, and no
offsets may come together when they move.
-/
theorem spare_moved {first last start stop : UInt32} {move after : UInt32 → UInt32}
    {begins : UInt32} {tokens : List Token} (order : first ≤ last) (le : start ≤ stop)
    (within : ∀ span ∈ spansFrom begins tokens, span.Within limit)
    (strict : ∀ a b, a ≤ limit → b ≤ limit → (move a < move b ↔ a < b))
    (apart : ∀ a b, a ≤ limit → b ≤ limit → after a = after b → a = b)
    (agree : ∀ offset ≤ limit,
      offsetWithout first last (move offset) = after (offsetWithout start stop offset)) :
    spare first last (spansFrom (move begins) (tokens.map (Token.moved move))) =
      (spare start stop (spansFrom begins tokens)).map (Token.moved after) := by
  have kept : ∀ span ∈ spansFrom begins tokens,
      (!(span.moved move).gone first last) = !span.gone start stop := by
    intro span member
    have stops := (within span member).bound
    have starts := UInt32.le_trans (within span member).order stops
    -- The ends come together in the one cut just when they do in the other.
    have together : offsetWithout first last (move span.start) =
          offsetWithout first last (move span.stop) ↔
        offsetWithout start stop span.start = offsetWithout start stop span.stop := by
      rw [agree _ starts, agree _ stops]
      constructor
      · apply apart
        · exact UInt32.le_trans (offsetWithout_le_self le _) starts
        · exact UInt32.le_trans (offsetWithout_le_self le _) stops
      · exact congrArg after
    have gone : (span.moved move).gone first last = span.gone start stop := by
      rw [Bool.eq_iff_iff, Span.gone_iff order, Span.gone_iff le]
      exact and_congr (strict _ _ starts stops) together
    rw [gone]
  rw [spansFrom_moved, spare, spare, List.filter_map, List.map_map, List.map_map]
  refine (congrArg (List.map _) (List.filter_congr kept)).trans ?_
  apply List.map_congr_left
  intro span member
  have stops := (within span (List.mem_filter.mp member).1).bound
  exact congrArg (Token.mk · span.tag) (agree _ stops)

/-!
## Taking out the room

Room that is made in a line can be taken out again, and both leave the line as it was. Only a
hairline is lost when the room was in front of it, and with it the whole line if there was
nothing else.
-/

theorem le_add (fits : Fits limit width) (inside : place ≤ limit) :
    place ≤ place + width := by
  rw [UInt32.le_iff_toNat_le, toNat_add_of_fits inside fits]
  exact Nat.le_add_right _ _

theorem offsetWithout_room (fits : Fits limit width) (inside : place ≤ limit)
    (bound : offset ≤ limit) :
    offsetWithout place (place + width) (offsetWith place width offset) = offset := by
  have sum := toNat_add_of_fits inside fits
  have moved := toNat_offsetWith fits bound place
  apply UInt32.toNat_inj.mp
  rw [toNat_offsetWithout (le_add fits inside), sum]
  omega

theorem spare_room (fits : Fits t.length width) (later : 0 < place) (inside : place ≤ t.length) :
    spare place (place + width)
        (spansFrom 0 (t.toList.map (Token.moved (offsetWith place width)))) = t.toList := by
  have zero : offsetWith place width 0 = 0 := offsetWith_of_lt later
  have whole : (spare place place t.spans).map (Token.moved id) = t.toList := by
    rw [spans, spare_nothing]
    exact List.map_id' t.toList
  conv => lhs; rw [← zero]
  refine Eq.trans ?_ whole
  apply spare_moved (le_add fits inside) (UInt32.le_refl place) fun _ member =>
    within_of_mem_spans member
  · exact fun _ _ one other => offsetWith_lt_iff fits one other place
  · exact fun _ _ _ _ same => same
  · intro offset bound
    rw [offsetWithout_room fits inside bound, offsetWithout_self]
    rfl

theorem plain_insert_zero (fits : Fits t.length width) (wide : 0 < width)
    (inserted : t.insert 0 width = .ok u) : u.hairline = false := by
  rw [Bool.eq_false_iff]
  intro thin
  rcases hairline_iff.mp thin with ⟨token, member, zero⟩
  rw [toList_insert inserted] at member
  rcases List.mem_map.mp member with ⟨origin, there, rfl⟩
  have last := toNat_offsetWith fits (t.stop_le_length (Array.mem_def.mpr there)) 0
  have ends : (offsetWith 0 width origin.stop).toNat = 0 := congrArg UInt32.toNat zero
  have positive := UInt32.lt_iff_toNat_lt.mp wide
  rw [UInt32.toNat_zero] at last positive
  omega

theorem dropWhile_stopsBy_insert (fits : Fits t.length width) (inside : place ≤ t.length)
    (inserted : t.insert place width = .ok u) :
    u.toList.dropWhile (stopsBy (place + width)) =
      (t.toList.dropWhile (stopsBy place)).map (Token.grow width) := by
  have sum := toNat_add_of_fits inside fits
  have moves : ∀ token ∈ t.toList, _ :=
    fun token member => toNat_offsetWith fits (t.stop_le_length (Array.mem_def.mpr member)) place
  have early : ∀ token ∈ (t.toList.takeWhile (stopsBy place)).map
      (Token.moved (offsetWith place width)), stopsBy (place + width) token = true := by
    intro token member
    rcases List.mem_map.mp member with ⟨origin, there, rfl⟩
    have before := stop_of_mem_takeWhile there
    have moved := moves origin ((List.takeWhile_sublist _).subset there)
    apply decide_eq_true
    show offsetWith place width origin.stop ≤ place + width
    rw [UInt32.le_iff_toNat_le, sum]
    omega
  have late : ∀ token ∈ t.toList.dropWhile (stopsBy place),
      Token.moved (offsetWith place width) token = token.grow width := by
    intro token member
    have after := UInt32.lt_iff_toNat_lt.mpr (stop_of_mem_dropWhile member)
    rw [Token.moved, offsetWith, if_neg (UInt32.not_lt.mpr (UInt32.le_of_lt after))]
    rfl
  have past : ∀ token ∈ (t.toList.dropWhile (stopsBy place)).map
      (Token.moved (offsetWith place width)), place + width < token.stop := by
    intro token member
    rcases List.mem_map.mp member with ⟨origin, there, rfl⟩
    have after := stop_of_mem_dropWhile there
    have moved := moves origin ((List.dropWhile_sublist _).subset there)
    show place + width < offsetWith place width origin.stop
    rw [UInt32.lt_iff_toNat_lt, sum]
    omega
  rw [toList_insert inserted]
  conv => lhs; rw [← List.takeWhile_append_dropWhile (p := stopsBy place) (l := t.toList)]
  rw [List.map_append, List.dropWhile_append_of_pos early, dropWhile_stopsBy_of_past past,
    List.map_congr_left late]

theorem dropWhile_stopsBy_zero (t : Tiling) :
    t.toList.dropWhile (stopsBy 0) = if t.hairline then t.toList.tail else t.toList := by
  cases thin : t.hairline with
  | false =>
      have whole := List.takeWhile_append_dropWhile (p := stopsBy 0) (l := t.toList)
      rw [takeWhile_stopsBy_zero thin] at whole
      exact whole
  | true =>
      have increasing : Increasing t.toList := t.ordered
      unfold hairline at thin
      cases shape : t.toList with
      | nil =>
          rfl
      | cons token rest =>
          rw [shape] at thin increasing
          have zero : token.stop = 0 := eq_of_beq thin
          have past : ∀ other ∈ rest, 0 < other.stop := by
            intro other member
            rw [← zero]
            exact (List.pairwise_cons.mp increasing).1 other member
          have thick : stopsBy 0 token = true := decide_eq_true (UInt32.le_of_eq zero)
          rw [List.dropWhile_cons_of_pos thick, dropWhile_stopsBy_of_past past]
          rfl

theorem nonempty_of_length (positive : 0 < t.length) : t.isEmpty = false := by
  rw [Bool.eq_false_iff]
  intro bare
  rw [isEmpty_iff.mp bare] at positive
  exact absurd positive (UInt32.lt_irrefl 0)

theorem add_le_length (fits : Fits t.length width) (inside : offset ≤ t.length)
    (nonempty : t.isEmpty = false) (inserted : t.insert place width = .ok u) :
    offset + width ≤ u.length := by
  rw [UInt32.le_iff_toNat_le, length_insert inserted nonempty, toNat_add_of_fits inside fits]
  exact Nat.add_le_add_right (UInt32.le_iff_toNat_le.mp inside) _

theorem toList_delete_inserted (fits : Fits t.length width) (later : 0 < place)
    (inside : place ≤ t.length) (inserted : t.insert place width = .ok u)
    (deleted : u.delete place (place + width) = .ok v) : v.toList = t.toList := by
  have nonempty := nonempty_of_length (UInt32.lt_of_lt_of_le later inside)
  have le := le_add fits inside
  have reaches := add_le_length fits inside nonempty inserted
  have remains : ¬ u.Emptied place (place + width) := by
    rw [emptied_iff le reaches]
    rintro ⟨_, zero, _⟩
    exact UInt32.pos_iff_ne_zero.mp later zero
  have room := spare_room fits later inside
  rw [← toList_insert inserted] at room
  exact (toList_delete le reaches deleted remains).trans room

theorem toList_delete_inserted_zero (fits : Fits t.length width) (wide : 0 < width)
    (inserted : t.insert 0 width = .ok u) (deleted : u.delete 0 width = .ok v) :
    v.toList = if t.hairline then t.toList.tail else t.toList := by
  have plain := plain_insert_zero fits wide inserted
  have past := dropWhile_stopsBy_insert fits UInt32.zero_le inserted
  rw [UInt32.zero_add] at past
  rw [toList_deleteBeginning plain deleted, past, List.map_map, retreat_grow, List.map_id,
    dropWhile_stopsBy_zero]

theorem delete_inserted_eq_ok (fits : Fits t.length width) (inside : place ≤ t.length)
    (inserted : t.insert place width = .ok u) :
    ∃ v, u.delete place (place + width) = .ok v := by
  cases bare : t.isEmpty with
  | true =>
      rw [isEmpty_iff.mp bare] at inserted
      cases inserted
      exact ⟨empty, delete_empty _ _⟩
  | false =>
      exact u.delete_eq_ok (le_add fits inside) (add_le_length fits inside bare inserted)

theorem words_of_tail (same : v.toList = t.toList.tail) : v.words = t.words.drop 2 := by
  unfold words
  rw [same]
  cases t.toList with
  | nil =>
      rfl
  | cons token rest =>
      rfl

theorem delete_inserted (t : Tiling) (offset width : UInt32) (inside : offset ≤ t.length)
    (wide : 0 < width) (fits : t.length.toNat + width.toNat < UInt32.size) :
    (offset + width).toNat = offset.toNat + width.toNat ∧
      ∃ v, t.LeadsTo [.insert offset width, .delete offset (offset + width)] v ∧
        (¬ (offset = 0 ∧ t.words.head? = some 0) → v = t) ∧
        (offset = 0 → t.words.head? = some 0 →
          v.toList = t.toList.tail ∧ v.words = t.words.drop 2 ∧ (t.size = 1 → v = empty)) := by
  rcases t.insert_eq_ok inside fits with ⟨u, inserted⟩
  rcases delete_inserted_eq_ok fits inside inserted with ⟨v, deleted⟩
  refine ⟨toNat_add_of_fits inside fits, v, leadsTo_of_two inserted deleted, ?_, ?_⟩
  · intro kept
    apply ext_toList
    by_cases front : offset = 0
    · have plain : t.hairline = false := by
        rw [Bool.eq_false_iff]
        exact fun thin => kept ⟨front, t.hairline_iff_head?_words.mp thin⟩
      subst front
      rw [UInt32.zero_add] at deleted
      rw [toList_delete_inserted_zero fits wide inserted deleted, plain]
      rfl
    · have later := UInt32.pos_iff_ne_zero.mpr front
      exact toList_delete_inserted fits later inside inserted deleted
  · intro front zero
    subst front
    rw [UInt32.zero_add] at deleted
    have tokens := toList_delete_inserted_zero fits wide inserted deleted
    rw [if_pos (t.hairline_iff_head?_words.mpr zero)] at tokens
    refine ⟨tokens, words_of_tail tokens, ?_⟩
    intro one
    apply ext_toList
    rw [tokens]
    exact List.eq_nil_of_length_eq_zero ((List.length_tail ..).trans (congrArg (· - 1) one))

/--
Room in front of a hairline takes it along, and leaves nothing of a line that is nothing else.
Room at the end of the hairline, between two tokens or at the end of the line does not show.
-/
theorem delete_inserted_after_hairline :
    (∃ v : Tiling, pairsAfterHairline.LeadsTo [.insert 0 3, .delete 0 3] v ∧
      v.toList = [⟨2, 1⟩, ⟨4, 2⟩, ⟨6, 3⟩, ⟨8, 4⟩, ⟨10, 5⟩]) ∧
    pairsAfterHairline.LeadsTo [.insert 1 3, .delete 1 4] pairsAfterHairline ∧
    pairsAfterHairline.LeadsTo [.insert 4 7, .delete 4 11] pairsAfterHairline ∧
    pairsAfterHairline.LeadsTo [.insert 10 2, .delete 10 12] pairsAfterHairline ∧
    (Tiling.mk #[⟨0, 9⟩] (by decide)).LeadsTo [.insert 0 3, .delete 0 3] empty := by
  have back : ∀ offset width : UInt32, offset ≤ pairsAfterHairline.length → 0 < width →
      pairsAfterHairline.length.toNat + width.toNat < UInt32.size → offset ≠ 0 →
      pairsAfterHairline.LeadsTo [.insert offset width, .delete offset (offset + width)]
        pairsAfterHairline := by
    intro offset width inside wide fits later
    rcases delete_inserted pairsAfterHairline offset width inside wide fits with
      ⟨_, v, leads, same, _⟩
    have kept := same fun front => later front.1
    rw [kept] at leads
    exact leads
  rcases delete_inserted pairsAfterHairline 0 3 (by decide) (by decide) (by decide) with
    ⟨_, v, front, _, lost⟩
  refine ⟨⟨v, front, (lost rfl rfl).1⟩, back 1 3 (by decide) (by decide) (by decide) (by decide),
    back 4 7 (by decide) (by decide) (by decide) (by decide),
    back 10 2 (by decide) (by decide) (by decide) (by decide), ?_⟩
  rcases delete_inserted ⟨#[⟨0, 9⟩], by decide⟩ 0 3 (by decide) (by decide) (by decide) with
    ⟨_, w, whole, _, nothing⟩
  rw [← (nothing rfl rfl).2.2 rfl]
  exact whole

end Tiling

end TiledText
