import TiledText.Json.Loader
import TiledText.Proofs.Json.Reader
import TiledText.Proofs.Text.Utf16

/-!
# Lawful loaders

The laws of loaders settle what is loaded. They take the first member off an object and the first
item off an array, so two lawful loaders agree on a value by induction on its parts.

The plain loader is lawful. Its laws are those of looking a field up among the members: a member
with another name does not matter, and a field is loaded from a member only if no other has its
name.
-/

namespace TiledText
namespace Json

/-!
## What the laws settle
-/

namespace Loader

variable {loader other : Loader} [loader.Lawful] [other.Lawful]

open Lawful

theorem switches?_member_eq {fields : List Field} {rest : List (List UInt16 × Value)}
    (agree : loader.switches? fields (.object rest) = other.switches? fields (.object rest))
    {field : Field} (declared : field ∈ fields) (value : Value) :
    loader.switches? fields (.object ((field.name.utf16, value) :: rest)) =
      other.switches? fields (.object ((field.name.utf16, value) :: rest)) := by
  by_cases again : field.name.utf16 ∈ rest.map Prod.fst
  · rw [repeated declared value again, repeated declared value again]
  · by_cases typed : ∃ switch, value = .bool switch
    · obtain ⟨switch, rfl⟩ := typed
      rw [given declared switch again, given declared switch again, agree]
    · rw [mistyped declared (not_exists.mp typed), mistyped declared (not_exists.mp typed)]

theorem switches?_object_eq (fields : List Field) (members : List (List UInt16 × Value)) :
    loader.switches? fields (.object members) = other.switches? fields (.object members) := by
  induction members with
  | nil =>
      rw [noMembers, noMembers]
  | cons member rest ih =>
      obtain ⟨name, value⟩ := member
      by_cases spelled : ∃ text : Text, name = text.utf16
      · obtain ⟨text, rfl⟩ := spelled
        by_cases declared : ∃ field ∈ fields, field.name = text
        · obtain ⟨field, declared, rfl⟩ := declared
          exact switches?_member_eq ih declared value
        · have apart : ∀ field ∈ fields, field.name ≠ text :=
            fun field inside same => declared ⟨field, inside, same⟩
          rw [undeclared apart, undeclared apart, ih]
      · rw [unpaired fields (not_exists.mp spelled), unpaired fields (not_exists.mp spelled)]

theorem switches?_array_eq (fields : List Field) (items : List Value) :
    loader.switches? fields (.array items) = other.switches? fields (.array items) := by
  induction items generalizing fields with
  | nil =>
      rw [noItems, noItems]
  | cons value rest ih =>
      cases fields with
      | nil =>
          rw [tooMany, tooMany]
      | cons field more =>
          by_cases typed : ∃ switch, value = .bool switch
          · obtain ⟨switch, rfl⟩ := typed
            rw [item, item, ih]
          · rw [misplaced _ (not_exists.mp typed), misplaced _ (not_exists.mp typed)]

theorem switches?_eq (fields : List Field) (value : Value) :
    loader.switches? fields value = other.switches? fields value := by
  cases value with
  | object members =>
      exact switches?_object_eq fields members
  | array items =>
      exact switches?_array_eq fields items
  | _ =>
      rw [noRecord, noRecord]
      all_goals exact fun _ same => nomatch same

end Loader

/-!
## Names

A name is read exactly if it is the code units of some text, and as that text.
-/

def written (member : Text × Value) : List UInt16 × Value :=
  (member.1.utf16, member.2)

theorem named?_cons_utf16 (name : Text) (value : Value) (rest : List (List UInt16 × Value)) :
    named? ((name.utf16, value) :: rest) = (named? rest).map ((name, value) :: ·) := by
  rw [named?, List.mapM_cons]
  show ((Text.ofUtf16? name.utf16).map (·, value)).bind _ = _
  rw [Text.ofUtf16?_utf16, Option.map_some, Option.bind_some, Option.map_eq_bind]
  rfl

theorem named?_eq_none_of_unpaired {name : List UInt16} (noText : ∀ text : Text, name ≠ text.utf16)
    (value : Value) (rest : List (List UInt16 × Value)) :
    named? ((name, value) :: rest) = none := by
  have unread : Text.ofUtf16? name = none :=
    Option.eq_none_iff_forall_ne_some.mpr
      fun text spelled => noText text (Text.ofUtf16?_eq_some_iff.mp spelled)
  rw [named?, List.mapM_cons]
  show ((Text.ofUtf16? name).map (·, value)).bind _ = none
  rw [unread, Option.map_none, Option.bind_none]

theorem named?_eq_some_iff {members : List (List UInt16 × Value)} {named : List (Text × Value)} :
    named? members = some named ↔ members = named.map written := by
  induction members generalizing named with
  | nil =>
      rw [named?, List.mapM_nil, eq_comm (a := []), List.map_eq_nil_iff]
      exact ⟨fun same => (Option.some.inj same).symm, fun same => congrArg some same.symm⟩
  | cons member rest ih =>
      obtain ⟨name, value⟩ := member
      constructor
      · intro reads
        by_cases spelled : ∃ text : Text, name = text.utf16
        · obtain ⟨text, rfl⟩ := spelled
          rw [named?_cons_utf16] at reads
          obtain ⟨more, later, rfl⟩ := Option.map_eq_some_iff.mp reads
          rw [ih.mp later, List.map_cons, written]
        · rw [named?_eq_none_of_unpaired (not_exists.mp spelled)] at reads
          cases reads
      · intro same
        obtain ⟨first, more, rfl, whole, rfl⟩ := List.map_eq_cons_iff.mp same.symm
        cases whole
        rw [named?_cons_utf16, ih.mpr rfl, Option.map_some]

theorem mem_names_iff {rest : List (List UInt16 × Value)} {named : List (Text × Value)}
    (reads : named? rest = some named) {name : Text} :
    name.utf16 ∈ rest.map Prod.fst ↔ name ∈ named.map Prod.fst := by
  rw [named?_eq_some_iff.mp reads, List.map_map]
  constructor
  · intro listed
    obtain ⟨member, inside, same⟩ := List.mem_map.mp listed
    exact List.mem_map.mpr ⟨member, inside, Text.utf16_inj.mp same⟩
  · intro listed
    obtain ⟨member, inside, rfl⟩ := List.mem_map.mp listed
    exact List.mem_map.mpr ⟨member, inside, rfl⟩

/-!
## Looking up a field
-/

namespace Field

theorem filter_cons_self (name : Text) (value : Value) (named : List (Text × Value)) :
    ((name, value) :: named).filter (·.1 == name) = (name, value) :: named.filter (·.1 == name) :=
  List.filter_cons_of_pos (beq_self_eq_true name)

theorem filter_eq_nil {name : Text} {named : List (Text × Value)}
    (fresh : name ∉ named.map Prod.fst) : named.filter (·.1 == name) = [] :=
  List.filter_eq_nil_iff.mpr
    fun member inside same => fresh (List.mem_map.mpr ⟨member, inside, beq_iff_eq.mp same⟩)

theorem of?_cons_of_ne {field : Field} {name : Text} (apart : field.name ≠ name) (value : Value)
    (named : List (Text × Value)) : field.of? ((name, value) :: named) = field.of? named := by
  have skipped : ((name, value) :: named).filter (·.1 == field.name) =
      named.filter (·.1 == field.name) :=
    List.filter_cons_of_neg fun same => apart (beq_iff_eq.mp same).symm
  rw [of?, skipped, of?]

theorem of?_of_fresh {field : Field} {named : List (Text × Value)}
    (fresh : field.name ∉ named.map Prod.fst) : field.of? named = some field.ifMissing := by
  rw [of?, filter_eq_nil fresh]

theorem of?_cons_self {field : Field} {named : List (Text × Value)}
    (fresh : field.name ∉ named.map Prod.fst) (switch : Bool) :
    field.of? ((field.name, .bool switch) :: named) = some switch := by
  rw [of?, filter_cons_self, filter_eq_nil fresh]

theorem of?_repeated {field : Field} {named : List (Text × Value)}
    (again : field.name ∈ named.map Prod.fst) (value : Value) :
    field.of? ((field.name, value) :: named) = none := by
  obtain ⟨member, inside, same⟩ := List.mem_map.mp again
  have kept : member ∈ named.filter (·.1 == field.name) :=
    List.mem_filter.mpr ⟨inside, beq_iff_eq.mpr same⟩
  rw [of?, filter_cons_self]
  cases others : named.filter (·.1 == field.name) with
  | nil =>
      rw [others] at kept
      cases kept
  | cons second more =>
      split
      · next same =>
          cases same
      · next same =>
          cases same
      · rfl

theorem of?_mistyped {field : Field} {value : Value} (noSwitch : ∀ switch, value ≠ .bool switch)
    (named : List (Text × Value)) : field.of? ((field.name, value) :: named) = none := by
  rw [of?, filter_cons_self]
  generalize named.filter (·.1 == field.name) = others
  split
  · next same =>
      cases same
  · next switch same =>
      cases same
      exact absurd rfl (noSwitch switch)
  · rfl

end Field

/-!
## All fields of an object
-/

theorem mapM_congr {fields : List Field} {f g : Field → Option Bool}
    (same : ∀ field ∈ fields, f field = g field) : fields.mapM f = fields.mapM g := by
  induction fields with
  | nil =>
      rfl
  | cons field rest ih =>
      have ⟨first, later⟩ := List.forall_mem_cons.mp same
      rw [List.mapM_cons, List.mapM_cons, first, ih later]

theorem mapM_eq_none {fields : List Field} {f : Field → Option Bool} {field : Field}
    (inside : field ∈ fields) (refused : f field = none) : fields.mapM f = none := by
  induction fields with
  | nil =>
      cases inside
  | cons first rest ih =>
      rw [List.mapM_cons]
      cases List.mem_cons.mp inside with
      | inl same =>
          rw [← same, refused]
          rfl
      | inr later =>
          rw [ih later]
          cases f first with
          | none => rfl
          | some _ => rfl

theorem mapM_missing (fields : List Field) :
    fields.mapM (·.of? []) = some (fields.map Field.ifMissing) := by
  induction fields with
  | nil =>
      rfl
  | cons field rest ih =>
      rw [List.mapM_cons, ih]
      rfl

theorem mapM_assign (fields : List Field) {name : Text} {named : List (Text × Value)}
    (fresh : name ∉ named.map Prod.fst) (switch : Bool) :
    fields.mapM (·.of? ((name, .bool switch) :: named)) =
      (fields.mapM (Field.of? · named)).map (assign fields name switch) := by
  induction fields with
  | nil =>
      rfl
  | cons field rest ih =>
      rw [List.mapM_cons, List.mapM_cons, ih]
      by_cases same : field.name = name
      · subst same
        rw [Field.of?_cons_self fresh, Field.of?_of_fresh fresh]
        cases rest.mapM (Field.of? · named) with
        | none => rfl
        | some switches => simp [assign]
      · rw [Field.of?_cons_of_ne same]
        cases field.of? named with
        | none => rfl
        | some old =>
            cases rest.mapM (Field.of? · named) with
            | none => rfl
            | some switches => simp [assign, same]

theorem ofValue?_cons (fields : List Field) (name : Text) (value : Value)
    (rest : List (List UInt16 × Value)) :
    ofValue? fields (.object ((name.utf16, value) :: rest)) =
      (named? rest).bind fun named => fields.mapM (·.of? ((name, value) :: named)) := by
  show (named? ((name.utf16, value) :: rest)).bind _ = _
  rw [named?_cons_utf16, Option.bind_map]
  rfl

theorem ofValue?_cons_eq_none {fields : List Field} {field : Field} (declared : field ∈ fields)
    {value : Value} {rest : List (List UInt16 × Value)}
    (refused : ∀ named, named? rest = some named →
      field.of? ((field.name, value) :: named) = none) :
    ofValue? fields (.object ((field.name.utf16, value) :: rest)) = none := by
  rw [ofValue?_cons]
  cases reads : named? rest with
  | none =>
      rfl
  | some named =>
      exact mapM_eq_none declared (refused named reads)

/-!
## Switches in order
-/

theorem inOrder?_nil (fields : List Field) :
    inOrder? fields [] = some (fields.map Field.ifMissing) := by
  cases fields with
  | nil =>
      rfl
  | cons _ _ =>
      rfl

theorem inOrder?_tooMany (value : Value) (items : List Value) :
    inOrder? [] (value :: items) = none := by
  cases value with
  | _ => rfl

theorem inOrder?_misplaced (fields : List Field) {value : Value}
    (noSwitch : ∀ switch, value ≠ .bool switch) (items : List Value) :
    inOrder? fields (value :: items) = none := by
  unfold inOrder?
  split
  · next same =>
      cases same
  · next same =>
      cases same
      exact absurd rfl (noSwitch _)
  · rfl

theorem inOrder?_eq_some_iff {fields : List Field} {items : List Value} {switches : List Bool} :
    inOrder? fields items = some switches ↔
      ∃ given : List Bool, given.length ≤ fields.length ∧ items = given.map .bool ∧
        switches = given ++ (fields.drop given.length).map Field.ifMissing := by
  induction items generalizing fields switches with
  | nil =>
      rw [inOrder?_nil]
      constructor
      · intro read
        exact ⟨[], Nat.zero_le _, rfl, (Option.some.inj read).symm⟩
      · rintro ⟨given, _, empty, rfl⟩
        rw [List.map_eq_nil_iff.mp empty.symm]
        rfl
  | cons value rest ih =>
      cases fields with
      | nil =>
          rw [inOrder?_tooMany]
          constructor
          · intro read
            cases read
          · rintro ⟨given, short, same, _⟩
            rw [List.eq_nil_of_length_eq_zero (Nat.le_zero.mp short)] at same
            cases same
      | cons field more =>
          by_cases typed : ∃ switch, value = .bool switch
          · obtain ⟨switch, rfl⟩ := typed
            rw [inOrder?, Option.map_eq_some_iff]
            constructor
            · rintro ⟨later, read, rfl⟩
              obtain ⟨given, short, rfl, rfl⟩ := ih.mp read
              exact ⟨switch :: given, Nat.succ_le_succ short, rfl, rfl⟩
            · rintro ⟨given, short, same, rfl⟩
              cases given with
              | nil =>
                  cases same
              | cons first others =>
                  cases same
                  exact ⟨_, ih.mpr ⟨others, Nat.le_of_succ_le_succ short, rfl, rfl⟩, rfl⟩
          · rw [inOrder?_misplaced _ (not_exists.mp typed)]
            constructor
            · intro read
              cases read
            · rintro ⟨given, _, same, _⟩
              cases given with
              | nil =>
                  cases same
              | cons first others =>
                  cases same
                  exact absurd ⟨first, rfl⟩ typed

/-!
## The laws
-/

instance : Loader.plain.Lawful where
  value?_eq stored := parse?_eq_some_iff.mpr stored
  noMembers fields := mapM_missing fields
  unpaired fields := by
    intro name noText value rest
    show (named? ((name, value) :: rest)).bind _ = none
    rw [named?_eq_none_of_unpaired noText, Option.bind_none]
  undeclared := by
    intro fields name other value rest
    show ofValue? fields (.object ((name.utf16, value) :: rest)) =
      (named? rest).bind fun named => fields.mapM (·.of? named)
    rw [ofValue?_cons]
    congr 1
    funext named
    exact mapM_congr fun field inside => Field.of?_cons_of_ne (other field inside) value named
  given := by
    intro fields field declared switch rest once
    show ofValue? fields (.object ((field.name.utf16, .bool switch) :: rest)) =
      ((named? rest).bind fun named => fields.mapM (·.of? named)).map _
    rw [ofValue?_cons, Option.map_bind]
    cases reads : named? rest with
    | none =>
        rfl
    | some named =>
        exact mapM_assign fields (mt (mem_names_iff reads).mpr once) switch
  repeated := by
    intro fields field declared value rest again
    refine ofValue?_cons_eq_none declared fun named reads => ?_
    exact Field.of?_repeated ((mem_names_iff reads).mp again) value
  mistyped := by
    intro fields field declared value noSwitch rest
    exact ofValue?_cons_eq_none declared fun named _ => Field.of?_mistyped noSwitch named
  noItems fields := inOrder?_nil fields
  item _ _ _ _ := rfl
  misplaced fields _ noSwitch items := inOrder?_misplaced fields noSwitch items
  tooMany value items := inOrder?_tooMany value items
  noRecord := by
    intro fields value noObject noArray
    cases value with
    | object members => exact absurd rfl (noObject members)
    | array items => exact absurd rfl (noArray items)
    | _ => rfl

end Json
end TiledText
