import TiledText.Buffer.Edit
import TiledText.Document.Basic
import TiledText.Settings
import TiledText.Storage.Rope

/-!
# Storage

A document is stored as a rope for its text and a list of states, one for each line. A
state is a buffer, or nothing where the line is unknown. Rope and states are two things
that are changed one after the other. That there is a state for every line is not written
down anywhere.

A state is found by the number of its line. Reading one passes over a number without a
line. Writing one, taking states out and putting states in are checked.
-/

namespace TiledText

structure Storage (R : Type) where
  rope : R
  states : List (Option Buffer)
  settings : Settings
deriving Repr

structure Storage.Outcome (R : Type) where
  storage : Storage R
  error : Option DocumentError
deriving Repr

/-!
## Lists by index
-/

namespace Checked

def put (items : List α) (index : Nat) (item : α) : Checked (List α) :=
  if index < items.length then .ok (items.set index item) else .error .outside

/-- Takes out the items from `first` to `last`. What is taken comes before what is left. -/
def drain (items : List α) (first last : Nat) : Checked (List α × List α) := do
  let stop ← addIndex last 1
  if first ≤ stop ∧ stop ≤ items.length then
    return ((items.take stop).drop first, items.take first ++ items.drop stop)
  else
    .error .outside

/-- Puts items in before the one at `index`. -/
def splice (items : List α) (index : Nat) (more : List α) : Checked (List α) :=
  if index ≤ items.length then .ok (items.take index ++ more ++ items.drop index)
  else .error .outside

end Checked

namespace Storage

open Checked

variable {R : Type} [Rope R]

def ofText (text : Text) (settings : Settings) : Storage R :=
  let rope : R := Rope.ofText text
  ⟨rope, List.replicate (Rope.lineCount rope) none, settings⟩

/-!
## Reading
-/

def lineText? (s : Storage R) (line : Nat) : Option Text :=
  Rope.lineText? s.rope line

def lineWidth? (s : Storage R) (line : Nat) : Checked (Option Nat) :=
  Rope.lineWidth? s.rope line

/-- The buffer of a line. There is none when the line is unknown or does not exist. -/
def buffer? (s : Storage R) (line : Nat) : Option Buffer :=
  s.states[line]?.join

/-!
## Storing tokens
-/

def store (s : Storage R) (line : Nat) (b : Buffer) : Checked (Outcome R) := do
  let width ← s.lineWidth? line
  match width with
  | none =>
      return ⟨s, some (.lineOutside line s.states.length)⟩
  | some expected => do
      let length ← b.length
      if length.toNat = expected then do
        let states ← put s.states line (some b)
        return ⟨{ s with states }, none⟩
      else
        return ⟨s, some (.uncovered line expected length.toNat)⟩

def storeDecoded (s : Storage R) (line : Nat) :
    Except TilingError Buffer → Checked (Outcome R)
  | .ok b => s.store line b
  | .error cause => .ok ⟨s, some (.tiling cause)⟩

def setTokens (s : Storage R) (line : Nat) (tokens : List Token) : Checked (Outcome R) := do
  let decoded ← Buffer.ofTokens tokens
  s.storeDecoded line decoded

def restore (s : Storage R) (line : Nat) (packed : Packed) : Checked (Outcome R) := do
  let decoded ← Buffer.ofPacked packed
  s.storeDecoded line decoded

def clear (s : Storage R) (line : Nat) : Outcome R :=
  if line < s.states.length then
    ⟨{ s with states := s.states.set line none }, none⟩
  else
    ⟨s, some (.lineOutside line s.states.length)⟩

end Storage

end TiledText
