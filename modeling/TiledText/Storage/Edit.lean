import Mathlib.Algebra.GroupWithZero.Nat
import TiledText.Buffer.Call
import TiledText.Document.Command
import TiledText.Storage.Basic

/-!
# Editing storage

An edit goes by numbers. The two offsets are turned into lines and columns. The states of
the lines between them are taken out, and the text is changed. Then the states of the new
lines are worked out and put in, and those that do not cover their line are dropped again.

Two things can go wrong. A state may not be able to follow the edit, which is an error
and leaves the new lines unknown. A number may be outside of what it counts, which is a fault.
-/

namespace TiledText

namespace Storage

open Checked

/-!
## Attempts

What is attempted with states may be refused, and it is checked as well.
-/

abbrev Attempt := ExceptT TilingError Checked

/-- An attempt of which the result is given. -/
def given (result : Except TilingError α) : Attempt α :=
  ExceptT.mk (.ok result)

def through (change : Buffer → Checked (Except TilingError Buffer)) :
    Option Buffer → Attempt (Option Buffer)
  | none => pure none
  | some b => do
      let changed ← ExceptT.mk (change b)
      return some changed

def delete (state : Option Buffer) (start stop : UInt32) : Attempt (Option Buffer) :=
  through (·.delete start stop) state

def deleteBeginning (state : Option Buffer) (stop : UInt32) : Attempt (Option Buffer) :=
  through (·.deleteBeginning stop) state

def deleteEnding (state : Option Buffer) (start : UInt32) : Attempt (Option Buffer) :=
  through (·.deleteEnding start) state

def insert (state : Option Buffer) (offset width : UInt32) : Attempt (Option Buffer) :=
  through (·.insert offset width) state

def append : Option Buffer → Option Buffer → Attempt (Option Buffer)
  | some b, some c => do
      let joined ← ExceptT.mk (b.append c)
      return some joined
  | _, _ => pure none

/-!
## Replaying an edit
-/

/--
The state of the line that remains when the selected text is deleted. There is a last
state if more than one line was selected.
-/
def joined (first : Option Buffer) (last : Option (Option Buffer)) (start stop : UInt32) :
    Attempt (Option Buffer) :=
  match last with
  | none => delete first start stop
  | some last => do
      let head ← deleteEnding first start
      let tail ← deleteBeginning last stop
      append head tail

def carried (carry : Bool) (column : UInt32) (state : Option Buffer) :
    Attempt (Option Buffer) :=
  if carry then deleteBeginning state column else pure none

def distribute (carry : Bool) (column : UInt32) (state : Option Buffer)
    (inserted : List Text) : Attempt (List (Option Buffer)) := do
  let firstWidth := insertedWidth (inserted.head?.getD [])
  if inserted.length ≤ 1 then do
    let only ← insert state column firstWidth
    return [only]
  else do
    let moved ← carried carry column state
    let kept ← deleteEnding state column
    let head ← insert kept column firstWidth
    let lastWidth := insertedWidth (inserted.getLast?.getD [])
    let tail ← insert moved 0 lastWidth
    let between ← ExceptT.lift (subIndex inserted.length 2)
    return head :: (List.replicate between none ++ [tail])

def replay (first : Option Buffer) (last : Option (Option Buffer)) (start stop : UInt32)
    (carry : Bool) (inserted : List Text) : Attempt (List (Option Buffer)) := do
  let state ← joined first last start stop
  distribute carry start state inserted

/-!
## Dropping states
-/

variable {R : Type} [Rope R]

def demote (rope : R) (states : List (Option Buffer)) (line : Nat) :
    Checked (List (Option Buffer)) := do
  let width ← Rope.lineWidth? rope line
  match width, states[line]? with
  | some expected, some (some b) => do
      let length ← b.length
      if length.toNat = expected then
        return states
      else
        return states.set line none
  | _, _ =>
      return states

def demoteFrom (rope : R) (states : List (Option Buffer)) (line : Nat) :
    Nat → Checked (List (Option Buffer))
  | 0 => .ok states
  | remaining + 1 => do
      let states ← demote rope states line
      demoteFrom rope states (line + 1) remaining

/-!
## Edits
-/

/-- The states that result, or as many unknown ones where the replay was refused. -/
def statesOf (count : Nat) : Except TilingError (List (Option Buffer)) → List (Option Buffer)
  | .ok states => states
  | .error _ => List.replicate count none

def reportOf (recover : Bool) : Except TilingError α → Option DocumentError
  | .ok _ => none
  | .error cause => if recover then none else some (.tiling cause)

/-- Puts the states of `count` new lines in, and drops those that do not cover their line. -/
def fill (rope : R) (left : List (Option Buffer)) (line count : Nat)
    (states : List (Option Buffer)) : Checked (List (Option Buffer)) := do
  let filled ← splice left line states
  let past ← addIndex line count
  demoteFrom rope filled line (past - line)

def replace (s : Storage R) (e : Edit) : Checked (Outcome R) := do
  let start ← Rope.position s.rope e.start
  let stop ← Rope.position s.rope e.stop
  let (touched, left) ← drain s.states start.line stop.line
  let rope ← Rope.remove s.rope e.start e.stop
  let rope ← Rope.insert rope e.start e.inserted
  let result ← (replay touched.head?.join touched.tail.getLast? start.column stop.column
    s.settings.carrySplitTokens e.inserted.lines).run
  let states ← fill rope left start.line e.inserted.lines.length
    (statesOf e.inserted.lines.length result)
  return ⟨⟨rope, states, s.settings⟩, reportOf s.settings.recoverFromErrors result⟩

def edit (s : Storage R) (e : Edit) : Checked (Outcome R) :=
  let length := Rope.length s.rope
  if e.stop < e.start ∨ length < e.stop then
    .ok ⟨s, some (.editOutside e.start e.stop length)⟩
  else if e.isNoop then
    .ok ⟨s, none⟩
  else
    s.replace e

def run (s : Storage R) : Script → Checked (Outcome R)
  | [] => .ok ⟨s, none⟩
  | e :: rest => do
      let outcome ← s.edit e
      match outcome.error with
      | none => run outcome.storage rest
      | some _ => return outcome

/-!
## Commands
-/

def perform (s : Storage R) : Command → Checked (Outcome R)
  | .set line tokens => s.setTokens line tokens
  | .restore line packed => s.restore line packed
  | .clear line => .ok (s.clear line)
  | .edit e => s.edit e
  | .run script => s.run script

/-- The storage that some commands lead to, whether they succeed or not. -/
def after (s : Storage R) : List Command → Checked (Storage R)
  | [] => .ok s
  | command :: rest => do
      let outcome ← s.perform command
      after outcome.storage rest

end Storage

/-!
## Memory

The lines of a document can be counted with an index as long as the document fits into
memory, and with it what the next command brings.
-/

/-- What a command brings from outside: bytes of tokens, or characters, which are no shorter. -/
def Command.footprint : Command → Nat
  | .set _ tokens => (Call.encode tokens).footprint
  | .restore _ packed => (Call.decode packed).footprint
  | .clear _ => 0
  | .edit e => e.insertedLength
  | .run script => (script.map Edit.insertedLength).sum

/-- There is room for the document at the end, and before it for each command beside it. -/
def Document.Affords (d : Document) : List Command → Prop
  | [] => d.length < Checked.addressSize
  | command :: rest =>
      d.length + command.footprint < Checked.addressSize ∧
        Affords (d.perform command).document rest

instance Document.decidableAffords :
    (d : Document) → (commands : List Command) → Decidable (d.Affords commands)
  | d, [] => inferInstanceAs (Decidable (d.length < Checked.addressSize))
  | d, command :: rest =>
      have := decidableAffords (d.perform command).document rest
      inferInstanceAs (Decidable (_ ∧ _))

end TiledText
