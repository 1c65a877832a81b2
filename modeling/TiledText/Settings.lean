import TiledText.Json.Loader

/-!
# Settings

Two switches govern how a document keeps its lines known, and both are on unless said
otherwise. Settings are stored as a JSON object of the switches, and a loader loads them as a
record with two fields.
-/

namespace TiledText

structure Settings where
  /-- When a line is split, what moves to the last new line stays known. -/
  carrySplitTokens : Bool := true
  /-- An edit that tilings cannot follow is no error. The lines become unknown. -/
  recoverFromErrors : Bool := true
deriving DecidableEq, Repr, Inhabited

namespace Settings

def withCarrySplitTokens (settings : Settings) (carry : Bool) : Settings :=
  { settings with carrySplitTokens := carry }

def withRecoverFromErrors (settings : Settings) (recover : Bool) : Settings :=
  { settings with recoverFromErrors := recover }

/-!
## The stored form
-/

def carryName : String :=
  "carry_split_tokens"

def recoverName : String :=
  "recover_from_errors"

def renderSwitch : Bool → String
  | true => "true"
  | false => "false"

def render (settings : Settings) : String :=
  "\x7b\"" ++ carryName ++ "\":" ++ renderSwitch settings.carrySplitTokens ++ ",\"" ++
    recoverName ++ "\":" ++ renderSwitch settings.recoverFromErrors ++ "\x7d"

/-!
## Loading
-/

def fields : List Json.Field :=
  [⟨carryName.toList, ({} : Settings).carrySplitTokens⟩,
    ⟨recoverName.toList, ({} : Settings).recoverFromErrors⟩]

def ofSwitches? : List Bool → Option Settings
  | [carry, recover] => some ⟨carry, recover⟩
  | _ => none

def load? (loader : Json.Loader) (text : Text) : Option Settings := do
  let value ← loader.value? text
  ofSwitches? (← loader.switches? fields value)

def parse? (text : Text) : Option Settings :=
  load? .plain text

end Settings

end TiledText
