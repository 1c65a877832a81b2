import TiledText.Proofs.Json.Loader
import TiledText.Settings

/-!
# Loading settings

What is stored may be any value. Settings can be loaded from an object in which
each switch is given once as a boolean, or not at all, and from an array of one
boolean for each of the first switches. A switch that is not given is on.

The other members of an object are never looked at, but its own names are read
as text. A name in which a surrogate has no partner is no text, and an object
with such a name is refused. Everywhere else surrogates may stand alone.
-/

namespace TiledText
namespace Settings

/-!
## What a value says
-/

def valuesOf (members : List (List UInt16 × Json.Value)) (name : String) : List Json.Value :=
  (members.filter (·.1 == Text.utf16 name.toList)).map Prod.snd

/-- The name is given once and as a boolean, or not at all. A switch that is missing is on. -/
structure Gives (members : List (List UInt16 × Json.Value)) (name : String) (switch : Bool) :
    Prop where
  once : (valuesOf members name).length ≤ 1
  boolean : ∀ value ∈ valuesOf members name, value = .bool switch
  missing : valuesOf members name = [] → switch = true

/-- The names of the object itself are text. -/
def Named (members : List (List UInt16 × Json.Value)) : Prop :=
  ∀ member ∈ members, ∃ text : Text, member.1 = text.utf16

inductive Loads : Json.Value → Settings → Prop
  | object {members : List (List UInt16 × Json.Value)} {settings : Settings} : Named members →
      Gives members carryName settings.carrySplitTokens →
      Gives members recoverName settings.recoverFromErrors → Loads (.object members) settings
  | array {switches : List Bool} : switches.length ≤ 2 →
      Loads (.array (switches.map .bool)) ⟨switches[0]?.getD true, switches[1]?.getD true⟩

def isSwitch (member : List UInt16 × Json.Value) : Bool :=
  member.1 == Text.utf16 carryName.toList || member.1 == Text.utf16 recoverName.toList

/-!
## Reading names
-/

theorem named_iff {members : List (List UInt16 × Json.Value)} :
    Named members ↔ ∃ named : List (Text × Json.Value), members = named.map Json.written := by
  constructor
  · intro named
    induction members with
    | nil =>
        exact ⟨[], rfl⟩
    | cons member rest ih =>
        obtain ⟨text, spelled⟩ := named member (List.mem_cons_self ..)
        obtain ⟨more, rfl⟩ := ih fun other inside => named other (List.mem_cons_of_mem _ inside)
        exact ⟨(text, member.2) :: more, by rw [List.map_cons, Json.written, ← spelled]⟩
  · rintro ⟨named, rfl⟩ member inside
    obtain ⟨⟨text, value⟩, _, rfl⟩ := List.mem_map.mp inside
    exact ⟨text, rfl⟩

theorem valuesOf_written (named : List (Text × Json.Value)) (name : String) :
    valuesOf (named.map Json.written) name = (named.filter (·.1 == name.toList)).map Prod.snd := by
  have same : (fun member => member.1 == Text.utf16 name.toList) ∘ Json.written =
      fun member : Text × Json.Value => member.1 == name.toList := by
    funext member
    rw [Function.comp_apply, Json.written, Bool.eq_iff_iff, beq_iff_eq, beq_iff_eq,
      Text.utf16_inj]
  rw [valuesOf, List.filter_map, List.map_map, same]
  rfl

/-!
## Switches
-/

theorem gives_iff {members : List (List UInt16 × Json.Value)} {name : String} {switch : Bool} :
    Gives members name switch ↔
      (valuesOf members name = [] ∧ switch = true) ∨ valuesOf members name = [.bool switch] := by
  constructor
  · rintro ⟨once, boolean, missing⟩
    cases given : valuesOf members name with
    | nil =>
        exact .inl ⟨rfl, missing given⟩
    | cons value more =>
        rw [given] at once boolean
        have alone : more = [] :=
          List.eq_nil_of_length_eq_zero (Nat.le_zero.mp (Nat.le_of_succ_le_succ once))
        exact .inr (by rw [alone, boolean value (List.mem_cons_self ..)])
  · rintro (⟨missing, on⟩ | given)
    · exact ⟨by simp [missing], by simp [missing], fun _ => on⟩
    · exact ⟨by simp [given], by simp [given], by simp [given]⟩

theorem of?_eq_some_iff {named : List (Text × Json.Value)} {name : String} {switch : Bool} :
    Json.Field.of? ⟨name.toList, true⟩ named = some switch ↔
      Gives (named.map Json.written) name switch := by
  rw [gives_iff, valuesOf_written, Json.Field.of?]
  constructor
  · intro read
    split at read
    · next missing =>
        rw [missing]
        exact .inl ⟨rfl, (Option.some.inj read).symm⟩
    · next given =>
        rw [given, ← Option.some.inj read]
        exact .inr rfl
    · cases read
  · rintro (⟨missing, rfl⟩ | given)
    · rw [List.map_eq_nil_iff.mp missing]
    · obtain ⟨⟨other, value⟩, given, rfl⟩ := List.map_eq_singleton_iff.mp given
      rw [given]

theorem mapM_fields {named : List (Text × Json.Value)} {carry recover : Bool} :
    fields.mapM (·.of? named) = some [carry, recover] ↔
      Gives (named.map Json.written) carryName carry ∧
        Gives (named.map Json.written) recoverName recover := by
  rw [← of?_eq_some_iff, ← of?_eq_some_iff, fields, List.mapM_cons, List.mapM_cons,
    List.mapM_nil]
  constructor
  · intro read
    obtain ⟨first, here, read⟩ := Option.bind_eq_some_iff.mp read
    obtain ⟨more, read, same⟩ := Option.bind_eq_some_iff.mp read
    obtain ⟨second, there, read⟩ := Option.bind_eq_some_iff.mp read
    cases read
    cases same
    exact ⟨here, there⟩
  · rintro ⟨here, there⟩
    refine Option.bind_eq_some_iff.mpr ⟨_, here, Option.bind_eq_some_iff.mpr ⟨_, ?_, rfl⟩⟩
    exact Option.bind_eq_some_iff.mpr ⟨_, there, rfl⟩

theorem ofSwitches?_eq_some_iff {switches : List Bool} {settings : Settings} :
    ofSwitches? switches = some settings ↔
      switches = [settings.carrySplitTokens, settings.recoverFromErrors] := by
  constructor
  · intro read
    unfold ofSwitches? at read
    split at read
    · rw [← Option.some.inj read]
    · cases read
  · rintro rfl
    rfl

/-!
## Values
-/

theorem ofObject_iff {members : List (List UInt16 × Json.Value)} {carry recover : Bool} :
    Json.ofValue? fields (.object members) = some [carry, recover] ↔
      Loads (.object members) ⟨carry, recover⟩ := by
  constructor
  · intro read
    obtain ⟨named, reads, read⟩ := Option.bind_eq_some_iff.mp read
    have spelled := Json.named?_eq_some_iff.mp reads
    obtain ⟨first, second⟩ := mapM_fields.mp read
    rw [← spelled] at first second
    exact .object (named_iff.mpr ⟨named, spelled⟩) first second
  · rintro ⟨names, first, second⟩
    obtain ⟨named, rfl⟩ := named_iff.mp names
    exact Option.bind_eq_some_iff.mpr
      ⟨named, Json.named?_eq_some_iff.mpr rfl, mapM_fields.mpr ⟨first, second⟩⟩

theorem ofArray_iff {items : List Json.Value} {carry recover : Bool} :
    Json.inOrder? fields items = some [carry, recover] ↔
      Loads (.array items) ⟨carry, recover⟩ := by
  rw [Json.inOrder?_eq_some_iff]
  constructor
  · rintro ⟨given, short, rfl, same⟩
    rcases given with _ | ⟨first, _ | ⟨second, more⟩⟩
    · cases same
      exact @Loads.array [] short
    · cases same
      exact @Loads.array [carry] short
    · cases more with
      | nil =>
          cases same
          exact @Loads.array [carry, recover] short
      | cons _ _ =>
          simp [fields] at short
  · intro loads
    cases loads with
    | @array switches short =>
        refine ⟨switches, short, rfl, ?_⟩
        rcases switches with _ | ⟨first, _ | ⟨second, more⟩⟩
        · rfl
        · rfl
        · cases more with
          | nil =>
              rfl
          | cons _ _ =>
              simp at short

theorem ofValue?_iff {value : Json.Value} {carry recover : Bool} :
    Json.ofValue? fields value = some [carry, recover] ↔ Loads value ⟨carry, recover⟩ := by
  cases value with
  | object members =>
      exact ofObject_iff
  | array items =>
      exact ofArray_iff
  | _ =>
      constructor
      · intro read
        cases read
      · intro loads
        cases loads

/-!
## Other members
-/

theorem valuesOf_filter {name : String} (known : name = carryName ∨ name = recoverName)
    (members : List (List UInt16 × Json.Value)) :
    valuesOf (members.filter isSwitch) name = valuesOf members name := by
  rw [valuesOf, valuesOf, List.filter_filter]
  congr 2
  funext member
  cases same : member.1 == Text.utf16 name.toList with
  | false =>
      rfl
  | true =>
      rcases known with rfl | rfl
      · simp [isSwitch, same]
      · simp [isSwitch, same]

theorem perm_valuesOf {name : String} (known : name = carryName ∨ name = recoverName)
    {members others : List (List UInt16 × Json.Value)}
    (same : (members.filter isSwitch).Perm (others.filter isSwitch)) :
    (valuesOf members name).Perm (valuesOf others name) := by
  rw [← valuesOf_filter known, ← valuesOf_filter known others]
  exact (same.filter _).map _

theorem Gives.of_perm {name : String} {members others : List (List UInt16 × Json.Value)}
    (same : (valuesOf members name).Perm (valuesOf others name)) {switch : Bool}
    (gives : Gives members name switch) : Gives others name switch := by
  rcases gives_iff.mp gives with ⟨missing, on⟩ | given
  · rw [missing] at same
    exact gives_iff.mpr (.inl ⟨same.symm.eq_nil, on⟩)
  · rw [given] at same
    exact gives_iff.mpr (.inr (List.perm_singleton.mp same.symm))

theorem Loads.of_perm {members others : List (List UInt16 × Json.Value)} {settings : Settings}
    (names : Named members → Named others)
    (same : (members.filter isSwitch).Perm (others.filter isSwitch))
    (loads : Loads (.object members) settings) : Loads (.object others) settings := by
  cases loads with
  | object named carry recover =>
      exact .object (names named) (carry.of_perm (perm_valuesOf (.inl rfl) same))
        (recover.of_perm (perm_valuesOf (.inr rfl) same))

/-!
## Stored texts

A lawful loader agrees with the plain one on every value.

What a lawful loader loads from a text is what its value says, and nothing else is loaded.
Objects that agree on the switches, up to their order, are loaded alike or refused alike,
whatever else they hold, unless only one of them has a name that is no text.
-/

section

variable (loader : Json.Loader) [loader.Lawful]

theorem load?_eq_some_iff {value : Json.Value} {text : Text} (stored : value.WrittenAs text)
    {settings : Settings} : load? loader text = some settings ↔ Loads value settings := by
  have plain : loader.switches? fields value = Json.Loader.plain.switches? fields value :=
    Json.Loader.switches?_eq fields value
  rw [load?, Json.Loader.Lawful.value?_eq stored]
  show (loader.switches? fields value).bind ofSwitches? = some settings ↔ _
  rw [plain, Option.bind_eq_some_iff, ← ofValue?_iff]
  constructor
  · rintro ⟨switches, read, same⟩
    rw [← ofSwitches?_eq_some_iff.mp same]
    exact read
  · intro read
    exact ⟨_, read, rfl⟩

theorem load?_congr {members others : List (List UInt16 × Json.Value)} {text other : Text}
    (stored : (Json.Value.object members).WrittenAs text)
    (storedOther : (Json.Value.object others).WrittenAs other)
    (names : Named members ↔ Named others)
    (same : (members.filter isSwitch).Perm (others.filter isSwitch)) :
    load? loader text = load? loader other := by
  apply Option.ext
  intro settings
  rw [load?_eq_some_iff loader stored, load?_eq_some_iff loader storedOther]
  constructor
  · exact Loads.of_perm names.mp same
  · exact Loads.of_perm names.mpr same.symm

theorem load?_by_switches :
    (∀ (value : Json.Value) (text : Text) (settings : Settings), value.WrittenAs text →
      (load? loader text = some settings ↔ Loads value settings)) ∧
    ∀ (members others : List (List UInt16 × Json.Value)) (text other : Text),
      (Json.Value.object members).WrittenAs text → (Json.Value.object others).WrittenAs other →
      (Named members ↔ Named others) →
      (members.filter isSwitch).Perm (others.filter isSwitch) →
      load? loader text = load? loader other := by
  constructor
  · intro value text settings stored
    exact load?_eq_some_iff loader stored
  · intro members others text other stored storedOther names same
    exact load?_congr loader stored storedOther names same

end

/-- A switch, and another member that holds an object with a member of the same name. -/
def nested : List (List UInt16 × Json.Value) :=
  [(Text.utf16 ['x'], .object [(Text.utf16 carryName.toList, .null)]),
    (Text.utf16 carryName.toList, .bool false)]

def nestedText : Text :=
  "\x7b\"x\":\x7b\"carry_split_tokens\":null\x7d,\"carry_split_tokens\":false\x7d".toList

theorem load?_by_switches_beside_nested :
    Json.Loader.plain.Lawful ∧ (Json.Value.object nested).WrittenAs nestedText ∧
      load? .plain nestedText = some ⟨false, true⟩ ∧
      load? .plain nestedText = load? .plain "\x7b \"carry_split_tokens\" : false \x7d".toList := by
  have stored : (Json.Value.object nested).WrittenAs nestedText :=
    Json.lexemes?_eq_some_iff.mp (by decide +kernel)
  have alone : (Json.Value.object [(Text.utf16 carryName.toList, .bool false)]).WrittenAs
      "\x7b \"carry_split_tokens\" : false \x7d".toList :=
    Json.lexemes?_eq_some_iff.mp (by decide +kernel)
  have names : Named nested :=
    named_iff.mpr ⟨[(['x'], .object [(Text.utf16 carryName.toList, .null)]),
      (carryName.toList, .bool false)], rfl⟩
  have nameAlone : Named [(Text.utf16 carryName.toList, .bool false)] :=
    named_iff.mpr ⟨[(carryName.toList, .bool false)], rfl⟩
  have same : (nested.filter isSwitch).Perm
      (List.filter isSwitch [(Text.utf16 carryName.toList, .bool false)]) :=
    .of_eq rfl
  refine ⟨inferInstance, stored, ?_, ?_⟩
  · refine ((load?_by_switches .plain).1 _ _ _ stored).mpr (.object names ?_ ?_)
    · exact gives_iff.mpr (.inr rfl)
    · exact gives_iff.mpr (.inl ⟨rfl, rfl⟩)
  · exact (load?_by_switches .plain).2 _ _ _ _ stored alone ⟨fun _ => nameAlone, fun _ => names⟩
      same

theorem not_named_of_unpaired : ¬Named [([0xD800, 0x78], .number ['1'])] := by
  intro names
  obtain ⟨text, spelled⟩ := names _ (List.mem_singleton.mpr rfl)
  have read := Text.ofUtf16?_eq_some_iff.mpr spelled
  cases read

/-- A surrogate has no partner in the only name. No switch is given, yet nothing is loaded. -/
theorem load?_of_unpaired_name :
    (Json.Value.object [([0xD800, 0x78], .number ['1'])]).WrittenAs
        "\x7b\"\\ud800x\":1\x7d".toList ∧
      valuesOf [([0xD800, 0x78], .number ['1'])] carryName = [] ∧
      valuesOf [([0xD800, 0x78], .number ['1'])] recoverName = [] ∧
      (∀ (loader : Json.Loader) [loader.Lawful],
        load? loader "\x7b\"\\ud800x\":1\x7d".toList = none) ∧
      ∀ (loader : Json.Loader) [loader.Lawful],
        load? loader "\x7b\x7d".toList = some ⟨true, true⟩ := by
  have stored : (Json.Value.object [([0xD800, 0x78], .number ['1'])]).WrittenAs
      "\x7b\"\\ud800x\":1\x7d".toList :=
    Json.lexemes?_eq_some_iff.mp (by decide +kernel)
  have empty : (Json.Value.object []).WrittenAs "\x7b\x7d".toList :=
    Json.lexemes?_eq_some_iff.mp (by decide +kernel)
  refine ⟨stored, rfl, rfl, ?_, ?_⟩
  · intro loader _
    refine Option.eq_none_iff_forall_ne_some.mpr fun settings loaded => ?_
    cases (load?_eq_some_iff loader stored).mp loaded with
    | object names _ _ => exact not_named_of_unpaired names
  · intro loader _
    refine (load?_eq_some_iff loader empty).mpr (.object (fun _ inside => nomatch inside) ?_ ?_)
    · exact gives_iff.mpr (.inl ⟨rfl, rfl⟩)
    · exact gives_iff.mpr (.inl ⟨rfl, rfl⟩)

end Settings
end TiledText
