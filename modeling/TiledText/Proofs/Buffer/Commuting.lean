import TiledText.Proofs.Buffer.Changes

/-!
# Changes in either order

Two changes of different parts of a line can be made in either order. The later part is named
by other offsets when the earlier one has been changed before, and the offsets of the line move
in the same way.

Whether a span goes is decided by one of the two changes, and the other moves both of its ends
to the same side. So the tokens of the two results are the same one by one, in whichever token
the changes are made and whatever tokens lie between them.
-/

namespace TiledText

/-!
## Where offsets go

Each lemma moves an offset twice, and says where the second change has to be made for the
other order to move it in the same way.
-/

variable {start stop first last place further width more offset limit : UInt32}

theorem offsetWithout_of_past (le : start ≤ stop) (past : stop ≤ offset) :
    offsetWithout start stop offset = offset - (stop - start) :=
  PieceOf.offsetWithout_stop ⟨UInt32.le_refl start, le, past⟩

theorem toNat_offsetWithout_of_past (le : start ≤ stop) (past : stop ≤ offset) :
    (offsetWithout start stop offset).toNat =
      offset.toNat - (stop.toNat - start.toNat) := by
  rw [offsetWithout_of_past le past]
  exact PieceOf.toNat_rest ⟨UInt32.le_refl start, le, past⟩

theorem add_le_add_of_fits (le : start ≤ stop) (inside : stop ≤ limit)
    (fits : Tiling.Fits limit width) : start + width ≤ stop + width := by
  rw [UInt32.le_iff_toNat_le, Tiling.toNat_add_of_fits (UInt32.le_trans le inside) fits,
    Tiling.toNat_add_of_fits inside fits]
  exact Nat.add_le_add_right (UInt32.le_iff_toNat_le.mp le) _

theorem offsetWith_offsetWith (later : place < further) (inside : further ≤ limit)
    (fits : limit.toNat + width.toNat + more.toNat < UInt32.size) (bound : offset ≤ limit) :
    offsetWith (further + width) more (offsetWith place width offset) =
      offsetWith place width (offsetWith further more offset) := by
  have order := UInt32.lt_iff_toNat_lt.mp later
  have here := UInt32.le_iff_toNat_le.mp bound
  have narrow : Tiling.Fits limit width := Nat.lt_of_add_right_lt fits
  have wide : Tiling.Fits limit more := by
    rw [Nat.add_right_comm] at fits
    exact Nat.lt_of_add_right_lt fits
  have sum := Tiling.toNat_add_of_fits inside narrow
  have one := toNat_offsetWith narrow bound place
  have other := toNat_offsetWith wide bound further
  have onward : Tiling.Fits (offsetWith place width offset) more := show _ < _ by omega
  have forward : Tiling.Fits (offsetWith further more offset) width := show _ < _ by omega
  have both := toNat_offsetWith onward (UInt32.le_refl _) (further + width)
  have back := toNat_offsetWith forward (UInt32.le_refl _) place
  apply UInt32.toNat_inj.mp
  omega

theorem offsetWithout_offsetWith (le : start ≤ stop) (later : stop < place)
    (fits : Tiling.Fits limit width) (bound : offset ≤ limit) :
    offsetWithout start stop (offsetWith place width offset) =
      offsetWith (offsetWithout start stop place) width (offsetWithout start stop offset) := by
  have order := UInt32.le_iff_toNat_le.mp le
  have past := UInt32.lt_iff_toNat_lt.mp later
  have cut := toNat_offsetWithout le offset
  have back := toNat_offsetWithout le place
  have made := toNat_offsetWith fits bound place
  have after := toNat_offsetWith fits (UInt32.le_trans (offsetWithout_le_self le _) bound)
    (offsetWithout start stop place)
  apply UInt32.toNat_inj.mp
  rw [toNat_offsetWithout le]
  omega

theorem offsetWithout_offsetWith_of_lt (le : start ≤ stop) (inside : stop ≤ limit)
    (before : place < start) (fits : Tiling.Fits limit width) (bound : offset ≤ limit) :
    offsetWithout (start + width) (stop + width) (offsetWith place width offset) =
      offsetWith place width (offsetWithout start stop offset) := by
  have order := UInt32.le_iff_toNat_le.mp le
  have front := UInt32.lt_iff_toNat_lt.mp before
  have here := UInt32.le_iff_toNat_le.mp bound
  have first := Tiling.toNat_add_of_fits (UInt32.le_trans le inside) fits
  have last := Tiling.toNat_add_of_fits inside fits
  have wider := add_le_add_of_fits le inside fits
  have cut := toNat_offsetWithout le offset
  have made := toNat_offsetWith fits bound place
  have after := toNat_offsetWith fits (UInt32.le_trans (offsetWithout_le_self le _) bound) place
  apply UInt32.toNat_inj.mp
  rw [toNat_offsetWithout wider, first, last]
  omega

theorem offsetWithout_offsetWithout (le : start ≤ stop) (later : stop ≤ first)
    (order : first ≤ last) (offset : UInt32) :
    offsetWithout start stop (offsetWithout first last offset) =
      offsetWithout (offsetWithout start stop first) (offsetWithout start stop last)
        (offsetWithout start stop offset) := by
  have back := offsetWithout_le le order
  by_cases before : offset ≤ first
  · have still : offsetWithout first last offset = offset := if_pos before
    rw [still]
    exact (if_pos (offsetWithout_le le before)).symm
  · have past := UInt32.le_of_lt (UInt32.not_le.mp before)
    have still : offsetWithout first last first = first := if_pos (UInt32.le_refl _)
    have reached := offsetWithout_le order past
    rw [still] at reached
    apply UInt32.toNat_inj.mp
    rw [toNat_offsetWithout_of_past le (UInt32.le_trans later reached), toNat_offsetWithout order,
      toNat_offsetWithout back, toNat_offsetWithout_of_past le (UInt32.le_trans later past),
      toNat_offsetWithout_of_past le later,
      toNat_offsetWithout_of_past le (UInt32.le_trans later order)]
    rw [UInt32.le_iff_toNat_le] at le later order past
    omega

namespace Tiling

variable {t u v : Tiling}

/-!
## Which spans go
-/

theorem spare_spansFrom {begins other : UInt32} (one : begins < start) (two : other < start)
    (tokens : List Token) :
    spare start stop (spansFrom begins tokens) = spare start stop (spansFrom other tokens) := by
  cases tokens with
  | nil =>
      rfl
  | cons token rest =>
      rw [spansFrom, spansFrom, spare_cons_of_spared (Span.gone_of_across one),
        spare_cons_of_spared (Span.gone_of_across two)]
      rfl

theorem spare_after_room (fits : Fits t.length width) (le : start ≤ stop)
    (inside : stop ≤ t.length) (before : place < start) :
    spare (start + width) (stop + width)
        (spansFrom 0 (t.toList.map (Token.moved (offsetWith place width)))) =
      (spare start stop t.spans).map (Token.moved (offsetWith place width)) := by
  have first := toNat_add_of_fits (UInt32.le_trans le inside) fits
  have front := UInt32.lt_iff_toNat_lt.mp before
  have begins : offsetWith place width 0 < start + width := by
    have moved := toNat_offsetWith fits UInt32.zero_le place
    rw [UInt32.toNat_zero] at moved
    rw [UInt32.lt_iff_toNat_lt, first]
    omega
  have zero : (0 : UInt32) < start + width := UInt32.lt_of_le_of_lt UInt32.zero_le begins
  rw [spare_spansFrom zero begins]
  apply spare_moved (add_le_add_of_fits le inside fits) le
    fun _ member => within_of_mem_spans member
  · exact fun _ _ one other => offsetWith_lt_iff fits one other place
  · exact fun _ _ one other same => offsetWith_inj fits one other same
  · exact fun _ bound => offsetWithout_offsetWith_of_lt le inside before fits bound

theorem spare_before_room (fits : Fits t.length width) (le : start ≤ stop) (later : stop < place) :
    spare start stop (spansFrom 0 (t.toList.map (Token.moved (offsetWith place width)))) =
      (spare start stop t.spans).map
        (Token.moved (offsetWith (offsetWithout start stop place) width)) := by
  have zero : offsetWith place width 0 = 0 :=
    offsetWith_of_lt (UInt32.lt_of_le_of_lt UInt32.zero_le later)
  conv => lhs; rw [← zero]
  apply spare_moved le le fun _ member => within_of_mem_spans member
  · exact fun _ _ one other => offsetWith_lt_iff fits one other place
  · exact fun _ _ one other same => offsetWith_inj fits one other same
  · exact fun _ bound => offsetWithout_offsetWith le later fits bound

/-!
## Both orders

Changes of different parts of a line, in buffers as in tilings, give the same line in either
order, and neither is refused. The offsets of the part further on are those which it has when
its change comes. Room for units lies in front of a part or behind it, and deleted parts may
touch each other.
-/

/-- Both ways lead to the same line, and no change on them is refused. -/
def Meet (t : Tiling) (one other : List Change) : Prop :=
  ∃ u, t.LeadsTo one u ∧ t.LeadsTo other u

theorem meet_of_two {w z : Tiling} {first second third fourth : Change}
    (one : t.change first = .ok u) (two : u.change second = .ok v)
    (three : t.change third = .ok w) (four : w.change fourth = .ok z)
    (same : v.toList = z.toList) : t.Meet [first, second] [third, fourth] := by
  have other := leadsTo_of_two three four
  rw [← ext_toList same] at other
  exact ⟨v, leadsTo_of_two one two, other⟩

theorem length_le_insert (nonempty : t.isEmpty = false)
    (inserted : t.insert place width = .ok u) : t.length ≤ u.length := by
  rw [UInt32.le_iff_toNat_le, length_insert inserted nonempty]
  exact Nat.le_add_right _ _

theorem length_delete_le (le : start ≤ stop) (deleted : t.delete start stop = .ok u) :
    u.length ≤ t.length := by
  rw [length_delete le deleted]
  exact offsetWithout_le_self le _

theorem fits_of_le (fits : Fits limit width) (inside : offset ≤ limit) : Fits offset width :=
  Nat.lt_of_le_of_lt (Nat.add_le_add_right (UInt32.le_iff_toNat_le.mp inside) _) fits

theorem insert_insert (later : place < further) (inside : further ≤ t.length)
    (fits : t.length.toNat + width.toNat + more.toNat < UInt32.size) :
    t.Meet [.insert place width, .insert (further + width) more]
      [.insert further more, .insert place width] := by
  have before := UInt32.le_trans (UInt32.le_of_lt later) inside
  have narrow : Fits t.length width := Nat.lt_of_add_right_lt fits
  have swapped : t.length.toNat + more.toNat + width.toNat < UInt32.size := by
    rw [Nat.add_right_comm]
    exact fits
  have wide : Fits t.length more := Nat.lt_of_add_right_lt swapped
  have nonempty : t.isEmpty = false :=
    nonempty_of_length
      (UInt32.lt_of_lt_of_le (UInt32.lt_of_le_of_lt UInt32.zero_le later) inside)
  rcases t.insert_eq_ok before narrow with ⟨u, one⟩
  have onward : Fits u.length more := by
    rw [Fits, length_insert one nonempty]
    exact fits
  rcases u.insert_eq_ok (add_le_length narrow inside nonempty one) onward with ⟨v, two⟩
  rcases t.insert_eq_ok inside wide with ⟨w, three⟩
  have forward : Fits w.length width := by
    rw [Fits, length_insert three nonempty]
    exact swapped
  rcases w.insert_eq_ok (UInt32.le_trans before (length_le_insert nonempty three)) forward with
    ⟨z, four⟩
  have same : v.toList = z.toList := by
    rw [toList_insert two, toList_insert one, toList_insert four, toList_insert three,
      List.map_map, List.map_map]
    apply List.map_congr_left
    intro token member
    have bound := t.stop_le_length (Array.mem_def.mpr member)
    exact congrArg (Token.mk · token.tag) (offsetWith_offsetWith later inside fits bound)
  exact meet_of_two one two three four same

theorem insert_delete_of_lt (le : start ≤ stop) (inside : stop ≤ t.length) (before : place < start)
    (fits : Fits t.length width) :
    t.Meet [.insert place width, .delete (start + width) (stop + width)]
      [.delete start stop, .insert place width] := by
  have upTo := UInt32.le_trans le inside
  have early := UInt32.le_of_lt before
  have front : 0 < start := UInt32.lt_of_le_of_lt UInt32.zero_le before
  have nonempty := nonempty_of_length (UInt32.lt_of_lt_of_le front upTo)
  have first := toNat_add_of_fits upTo fits
  have wider := add_le_add_of_fits le inside fits
  rcases t.insert_eq_ok (UInt32.le_trans early upTo) fits with ⟨u, one⟩
  have reaches := add_le_length fits inside nonempty one
  rcases u.delete_eq_ok wider reaches with ⟨v, two⟩
  rcases t.delete_eq_ok le inside with ⟨w, three⟩
  have within : place ≤ w.length := by
    have still : offsetWithout start stop place = place := if_pos early
    rw [length_delete le three, ← still]
    exact offsetWithout_le le (UInt32.le_trans early upTo)
  rcases w.insert_eq_ok within (fits_of_le fits (length_delete_le le three)) with ⟨z, four⟩
  have remains : ¬ t.Emptied start stop := by
    rw [emptied_iff le inside]
    rintro ⟨_, zero, _⟩
    exact UInt32.ne_of_lt front zero.symm
  have more : ¬ u.Emptied (start + width) (stop + width) := by
    rw [emptied_iff wider reaches]
    rintro ⟨_, zero, _⟩
    have origin := congrArg UInt32.toNat zero
    rw [first, UInt32.toNat_zero] at origin
    rw [UInt32.lt_iff_toNat_lt, UInt32.toNat_zero] at front
    omega
  have same : v.toList = z.toList := by
    rw [toList_delete wider reaches two more, spans, toList_insert one, toList_insert four,
      toList_delete le inside three remains]
    exact spare_after_room fits le inside before
  exact meet_of_two one two three four same

theorem insert_delete_of_gt (le : start ≤ stop) (later : stop < place) (inside : place ≤ t.length)
    (fits : Fits t.length width) :
    t.Meet [.insert place width, .delete start stop]
      [.delete start stop, .insert (place - (stop - start)) width] := by
  have back := offsetWithout_of_past le (UInt32.le_of_lt later)
  have bound := UInt32.le_trans (UInt32.le_of_lt later) inside
  have part := UInt32.lt_of_lt_of_le later inside
  have nonempty := nonempty_of_length (UInt32.lt_of_le_of_lt UInt32.zero_le part)
  rcases t.insert_eq_ok inside fits with ⟨u, one⟩
  have longer := length_le_insert nonempty one
  rcases u.delete_eq_ok le (UInt32.le_trans bound longer) with ⟨v, two⟩
  rcases t.delete_eq_ok le bound with ⟨w, three⟩
  have within : offsetWithout start stop place ≤ w.length := by
    rw [length_delete le three]
    exact offsetWithout_le le inside
  rcases w.insert_eq_ok within (fits_of_le fits (length_delete_le le three)) with ⟨z, four⟩
  have remains : ¬ t.Emptied start stop := by
    rw [emptied_iff le bound]
    rintro ⟨_, _, whole⟩
    exact UInt32.ne_of_lt part whole
  have more : ¬ u.Emptied start stop := by
    rw [emptied_iff le (UInt32.le_trans bound longer)]
    rintro ⟨_, _, whole⟩
    exact UInt32.ne_of_lt (UInt32.lt_of_lt_of_le part longer) whole
  have same : v.toList = z.toList := by
    rw [toList_delete le (UInt32.le_trans bound longer) two more, spans, toList_insert one,
      toList_insert four, toList_delete le bound three remains]
    exact spare_before_room fits le later
  rw [← back]
  exact meet_of_two one two three four same

theorem delete_delete (le : start ≤ stop) (later : stop ≤ first) (order : first ≤ last)
    (inside : last ≤ t.length) :
    t.Meet [.delete first last, .delete start stop]
      [.delete start stop, .delete (first - (stop - start)) (last - (stop - start))] := by
  have past := UInt32.le_trans later order
  have bound := UInt32.le_trans past inside
  rw [← offsetWithout_of_past le later, ← offsetWithout_of_past le past]
  rcases t.delete_eq_ok order inside with ⟨u, one⟩
  have within : stop ≤ u.length := by
    have still : offsetWithout first last stop = stop := if_pos later
    rw [length_delete order one, ← still]
    exact offsetWithout_le order bound
  rcases u.delete_eq_ok le within with ⟨v, two⟩
  rcases t.delete_eq_ok le bound with ⟨w, three⟩
  have back := offsetWithout_le le order
  have reaches : offsetWithout start stop last ≤ w.length := by
    rw [length_delete le three]
    exact offsetWithout_le le inside
  rcases w.delete_eq_ok back reaches with ⟨z, four⟩
  have same : v.toList = z.toList := by
    rw [toList_delete_delete order inside le within one two,
      toList_delete_delete le bound back reaches three four]
    exact congrArg t.leftBy (funext (offsetWithout_offsetWithout le later order))
  exact meet_of_two one two three four same

theorem changes_commute (t : Tiling) :
    (∀ place further width more : UInt32, place < further → further ≤ t.length →
      t.length.toNat + width.toNat + more.toNat < UInt32.size →
      t.Meet [.insert place width, .insert (further + width) more]
        [.insert further more, .insert place width]) ∧
    (∀ start stop place width : UInt32, start ≤ stop → stop ≤ t.length →
      t.length.toNat + width.toNat < UInt32.size →
      (place < start →
        t.Meet [.insert place width, .delete (start + width) (stop + width)]
          [.delete start stop, .insert place width]) ∧
      (stop < place → place ≤ t.length →
        t.Meet [.insert place width, .delete start stop]
          [.delete start stop, .insert (place - (stop - start)) width])) ∧
    (∀ start stop first last : UInt32, start ≤ stop → stop ≤ first → first ≤ last →
      last ≤ t.length →
      t.Meet [.delete first last, .delete start stop]
        [.delete start stop, .delete (first - (stop - start)) (last - (stop - start))]) := by
  refine ⟨?_, ?_, ?_⟩
  · intro place further width more later inside fits
    exact insert_insert later inside fits
  · intro start stop place width le inside fits
    constructor
    · exact fun before => insert_delete_of_lt le inside before fits
    · exact fun later within => insert_delete_of_gt le later within fits
  · intro start stop first last le later order inside
    exact delete_delete le later order inside

/--
Room in two neighbouring tokens, room in front of a hairline and a deletion after it, room
behind a deletion, and a line that is emptied in two parts.
-/
theorem changes_commute_after_hairline :
    pairsAfterHairline.Meet [.insert 1 3, .insert 6 4] [.insert 3 4, .insert 1 3] ∧
      (∃ u : Tiling, pairsAfterHairline.LeadsTo [.insert 0 3, .delete 4 7] u ∧
        pairsAfterHairline.LeadsTo [.delete 1 4, .insert 0 3] u ∧
        u.toList = [⟨3, 9⟩, ⟨4, 1⟩, ⟨6, 3⟩, ⟨8, 4⟩, ⟨10, 5⟩]) ∧
      pairsAfterHairline.Meet [.insert 6 7, .delete 2 5] [.delete 2 5, .insert 3 7] ∧
      pairsAfterHairline.Meet [.delete 4 10, .delete 0 4] [.delete 0 4, .delete 0 6] := by
  rcases changes_commute pairsAfterHairline with ⟨rooms, around, cuts⟩
  have before := (around 1 4 0 3 (by decide) (by decide) (by decide)).1 (by decide)
  have behind := (around 2 5 6 7 (by decide) (by decide) (by decide)).2 (by decide) (by decide)
  rcases before with ⟨u, one, other⟩
  refine ⟨rooms 1 3 3 4 (by decide) (by decide) (by decide), ⟨u, one, other, ?_⟩, behind,
    cuts 0 4 4 10 (by decide) (by decide) (by decide) (by decide)⟩
  have tokens : (pairsAfterHairline.changeEach [.delete 1 4, .insert 0 3]).map Tiling.toList =
      .ok [⟨3, 9⟩, ⟨4, 1⟩, ⟨6, 3⟩, ⟨8, 4⟩, ⟨10, 5⟩] := by
    cbv
  rw [other.tiling] at tokens
  exact Except.ok.inj tokens

end Tiling

end TiledText
