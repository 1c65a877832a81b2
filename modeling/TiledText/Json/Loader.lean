import TiledText.Json.Reader

/-!
# Loading records

A record of switches is declared by its fields. It is stored as a JSON text, and a loader reads
the text and gives the switches in the order of the fields, or nothing.

What loads a record is not fixed here. The laws say what a loader makes of a value, one member or
one item at a time. Of a text that no value is written as they say nothing.
-/

namespace TiledText
namespace Json

/-!
## The interface
-/

/-- A field that holds a switch, with what the switch is where the field is left out. -/
structure Field where
  name : Text
  ifMissing : Bool
deriving DecidableEq, Repr

structure Loader where
  /-- The value that a text holds. -/
  value? : Text → Option Value
  /-- The switches that a value gives to the fields. -/
  switches? : List Field → Value → Option (List Bool)

/-- The switches after the field of the given name has been set. -/
def assign (fields : List Field) (name : Text) (switch : Bool) (switches : List Bool) :
    List Bool :=
  List.zipWith (fun field old => if field.name = name then switch else old) fields switches

/-!
The laws of loaders. A name is a sequence of code units. A field is given by its name, once and as
a boolean, and a field that is left out has its default. A name that is no field's is passed over
with its value, but a name has to be text. An array gives the switches by their order instead, and
what it leaves out at the end has its default.
-/

class Loader.Lawful (loader : Loader) : Prop where
  value?_eq {value : Value} {text : Text} (stored : value.WrittenAs text) :
    loader.value? text = some value
  noMembers (fields : List Field) :
    loader.switches? fields (.object []) = some (fields.map Field.ifMissing)
  unpaired (fields : List Field) {name : List UInt16} (noText : ∀ text : Text, name ≠ text.utf16)
    (value : Value) (rest : List (List UInt16 × Value)) :
    loader.switches? fields (.object ((name, value) :: rest)) = none
  undeclared {fields : List Field} {name : Text} (other : ∀ field ∈ fields, field.name ≠ name)
    (value : Value) (rest : List (List UInt16 × Value)) :
    loader.switches? fields (.object ((name.utf16, value) :: rest)) =
      loader.switches? fields (.object rest)
  given {fields : List Field} {field : Field} (declared : field ∈ fields) (switch : Bool)
    {rest : List (List UInt16 × Value)} (once : field.name.utf16 ∉ rest.map Prod.fst) :
    loader.switches? fields (.object ((field.name.utf16, .bool switch) :: rest)) =
      (loader.switches? fields (.object rest)).map (assign fields field.name switch)
  repeated {fields : List Field} {field : Field} (declared : field ∈ fields) (value : Value)
    {rest : List (List UInt16 × Value)} (again : field.name.utf16 ∈ rest.map Prod.fst) :
    loader.switches? fields (.object ((field.name.utf16, value) :: rest)) = none
  mistyped {fields : List Field} {field : Field} (declared : field ∈ fields) {value : Value}
    (noSwitch : ∀ switch, value ≠ .bool switch) (rest : List (List UInt16 × Value)) :
    loader.switches? fields (.object ((field.name.utf16, value) :: rest)) = none
  noItems (fields : List Field) :
    loader.switches? fields (.array []) = some (fields.map Field.ifMissing)
  item (field : Field) (fields : List Field) (switch : Bool) (items : List Value) :
    loader.switches? (field :: fields) (.array (.bool switch :: items)) =
      (loader.switches? fields (.array items)).map (switch :: ·)
  misplaced (fields : List Field) {value : Value} (noSwitch : ∀ switch, value ≠ .bool switch)
    (items : List Value) : loader.switches? fields (.array (value :: items)) = none
  tooMany (value : Value) (items : List Value) :
    loader.switches? [] (.array (value :: items)) = none
  noRecord (fields : List Field) {value : Value} (noObject : ∀ members, value ≠ .object members)
    (noArray : ∀ items, value ≠ .array items) : loader.switches? fields value = none

/-!
## A plain loader

The plain loader reads the whole text first. Then it looks each field up among the members.
-/

/-- The field may be given once, as a boolean, or not at all. -/
def Field.of? (field : Field) (members : List (Text × Value)) : Option Bool :=
  match members.filter (·.1 == field.name) with
  | [] => some field.ifMissing
  | [(_, .bool switch)] => some switch
  | _ => none

def inOrder? : List Field → List Value → Option (List Bool)
  | fields, [] => some (fields.map Field.ifMissing)
  | _ :: fields, .bool switch :: items => (inOrder? fields items).map (switch :: ·)
  | _, _ => none

/-- The members of an object, if their names are text. -/
def named? (members : List (List UInt16 × Value)) : Option (List (Text × Value)) :=
  members.mapM fun (name, value) => (Text.ofUtf16? name).map (·, value)

def ofValue? (fields : List Field) : Value → Option (List Bool)
  | .object members => do
      let named ← named? members
      fields.mapM (·.of? named)
  | .array items => inOrder? fields items
  | _ => none

def Loader.plain : Loader :=
  ⟨parse?, ofValue?⟩

end Json
end TiledText
