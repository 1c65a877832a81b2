import TiledText.Buffer.Checked
import TiledText.Tiling.Packed

/-!
# Buffers

A buffer is the packed form of a tiling, kept as it is: a stop, a tag, a stop, a tag,
and so on. It is read in place, by index, and every computation on the way is checked.

Nothing in the type says that the words come in pairs or that the stops increase.
Decoding looks at that once, and afterwards the operations rely on it.
-/

namespace TiledText

structure Buffer where
  words : List UInt32
deriving DecidableEq, Repr

namespace Tiling

def buffer (t : Tiling) : Buffer :=
  ⟨t.words⟩

end Tiling

namespace Buffer

open Checked

def empty : Buffer :=
  ⟨[]⟩

def isEmpty (b : Buffer) : Bool :=
  b.words.isEmpty

/-!
## Reading
-/

def size (b : Buffer) : Nat :=
  b.words.length / 2

/-- The words two by two. A word left over is passed by. -/
def pairs : List UInt32 → List Token
  | stop :: tag :: rest => ⟨stop, tag⟩ :: pairs rest
  | _ => []

def tokens (b : Buffer) : List Token :=
  pairs b.words

def spans (b : Buffer) : List Span :=
  Tiling.spansFrom 0 b.tokens

/-- The last stop stands before the last word. -/
def length (b : Buffer) : Checked UInt32 :=
  if b.words.length = 0 then
    .ok 0
  else do
    let last ← subIndex b.words.length 2
    read b.words last

def stopBy (overflow : Overflow) (b : Buffer) (index : Nat) : Checked UInt32 := do
  let place ← overflow.mulIndex index 2
  read b.words place

def startBy (overflow : Overflow) (b : Buffer) (index : Nat) : Checked UInt32 :=
  if index = 0 then
    .ok 0
  else do
    let before ← subIndex index 1
    b.stopBy overflow before

def stop (b : Buffer) (index : Nat) : Checked UInt32 :=
  b.stopBy .faults index

def start (b : Buffer) (index : Nat) : Checked UInt32 :=
  b.startBy .faults index

/-- The token at any index. There is none where the index is too large to be doubled. -/
def token? (b : Buffer) (index : Nat) : Checked (Option Token) :=
  if index * 2 < indexSize then
    match b.words[index * 2]? with
    | none => .ok none
    | some stop => do
        let next ← addIndex (index * 2) 1
        return b.words[next]?.map fun tag => ⟨stop, tag⟩
  else
    .ok none

/-!
## Searching by offset
-/

def halfway (low high : Nat) : Checked Nat := do
  let width ← subIndex high low
  addIndex low (width / 2)

theorem eq_of_halfway {low high middle : Nat} (found : halfway low high = .ok middle) :
    middle = low + (high - low) / 2 := by
  unfold halfway at found
  cases difference : subIndex high low with
  | error fault =>
      rw [difference] at found
      cases found
  | ok width =>
      rw [difference] at found
      rw [eq_of_addIndex found, eq_of_subIndex difference]

/--
Narrows the window from `low` to `high` around the first token that stops after
`offset`. The token at `high` is never looked at.
-/
def search (b : Buffer) (offset : UInt32) (low high : Nat) : Checked Nat :=
  if _window : low < high then do
    let ⟨middle, _found⟩ ← (halfway low high).held
    let stop ← b.stop middle
    if stop ≤ offset then do
      let ⟨next, _step⟩ ← (addIndex middle 1).held
      b.search offset next high
    else
      b.search offset low middle
  else
    .ok low
termination_by high - low
decreasing_by
  · rw [eq_of_addIndex _step, eq_of_halfway _found]
    omega
  · rw [eq_of_halfway _found]
    omega

/-- The index of the token that holds the code unit at `offset`, or of the last token. -/
def indexAt (b : Buffer) (offset : UInt32) : Checked Nat :=
  if b.size ≤ 1 then
    .ok 0
  else do
    let last ← subIndex b.size 1
    b.search offset 0 last

/-!
## Decoding
-/

def ofWords (words : List UInt32) : Checked (Except TilingError Buffer) :=
  if words.length % 2 ≠ 0 then
    .ok (.error (.ragged words.length 2))
  else
    let tokens := pairs words
    match (tokens.zip (tokens.drop 1)).findIdx? fun step => step.2.stop ≤ step.1.stop with
    | some index => do
        let later ← addIndex index 1
        return .error (.unordered later)
    | none => .ok (.ok ⟨words⟩)

/-- The bytes four by four. Bytes left over are passed by. -/
def quads : List UInt8 → List UInt32
  | a :: b :: c :: d :: rest => Packed.wordOfBytes a b c d :: quads rest
  | _ => []

def ofBytes (bytes : List UInt8) : Checked (Except TilingError Buffer) :=
  if bytes.length % 4 ≠ 0 then
    .ok (.error (.ragged bytes.length 4))
  else do
    room (bytes.length / 4)
    ofWords (quads bytes)

def ofPacked : Packed → Checked (Except TilingError Buffer)
  | .words words => ofWords words
  | .bytes bytes => ofBytes bytes

/-- Room for the words is asked for before they are written. -/
def ofTokens (tokens : List Token) : Checked (Except TilingError Buffer) := do
  let count ← mulIndex tokens.length 2
  room count
  ofWords (Packed.wordsOfTokens tokens)

end Buffer

end TiledText
