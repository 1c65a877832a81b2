import TiledText.Buffer.Basic
import TiledText.Tiling.Edit

/-!
# Editing a buffer

The edits of tilings, carried out on the words. Where an edit stays inside one token
the stops from there on are changed in place. A removal that swallows tokens moves
the words of those that survive forward, over the words of the others, and then cuts
off what is left at the end. Joining writes new words.

Arguments that do not fit the line are refused with an error. A fault is another
matter: it would be a mistake in the computation.
-/

namespace TiledText

namespace Buffer

open Checked

/-!
## Changing stops in place
-/

/-- Changes the stops of `remaining` tokens, beginning with the token at `index`. -/
def adjust (change : UInt32 → Checked UInt32) (words : List UInt32) (index : Nat) :
    Nat → Checked (List UInt32)
  | 0 => .ok words
  | remaining + 1 => do
      let place ← mulIndex index 2
      let stop ← read words place
      let moved ← change stop
      let words ← write words place moved
      adjust change words (index + 1) remaining

/-!
## Removing a stretch
-/

/-- Writes a token at `dest`: a new stop, and the tag of the token at `place`. -/
def move (words : List UInt32) (place dest : Nat) (stop : UInt32) : Checked (List UInt32) := do
  let words ← write words dest stop
  let origin ← addIndex place 1
  let tag ← read words origin
  let beside ← addIndex dest 1
  write words beside tag

/--
Moves the tokens that survive a removal forward. Those from `index` on are looked at,
and words are written from `dest` on. A token survives if it stops after `last`, where
the one written before it does. The result says where the words that count end.
-/
def compact (width : UInt32) (words : List UInt32) (index dest : Nat) (last : UInt32) :
    Nat → Checked (List UInt32 × Nat)
  | 0 => .ok (words, dest)
  | remaining + 1 => do
      let place ← mulIndex index 2
      let stop ← read words place
      let moved := subOrZero stop width
      if last < moved then do
        let words ← move words place dest moved
        let next ← addIndex dest 2
        compact width words (index + 1) next moved remaining
      else
        compact width words (index + 1) dest last remaining

/-- Ends the token at `index` where the removal begins, unless nothing would be left of it. -/
def sever (words : List UInt32) (index : Nat) (begins start : UInt32) :
    Checked (List UInt32 × Nat) :=
  if begins ≠ start then do
    let place ← mulIndex index 2
    let words ← write words place start
    let next ← addIndex index 1
    let dest ← mulIndex next 2
    return (words, dest)
  else do
    let dest ← mulIndex index 2
    return (words, dest)

/--
Severs the token at `index`, moves the survivors among those after it, and cuts off
the words that count no more.
-/
def swallow (words : List UInt32) (count index : Nat) (begins start width : UInt32) :
    Checked (List UInt32) := do
  let (words, dest) ← sever words index begins start
  let next ← addIndex index 1
  let (words, dest) ← compact width words next dest start (count - next)
  return words.take dest

def cut (b : Buffer) (start stop : UInt32) : Checked Buffer := do
  let index ← b.indexAt start
  let begins ← b.start index
  let ends ← b.stop index
  let width ← sub stop start
  if stop < ends then do
    let words ← adjust (sub · width) b.words index (b.size - index)
    return ⟨words⟩
  else do
    let words ← swallow b.words b.size index begins start width
    return ⟨words⟩

def delete (b : Buffer) (start stop : UInt32) : Checked (Except TilingError Buffer) :=
  if b.isEmpty then
    .ok (.ok b)
  else do
    let length ← b.length
    if stop < start ∨ length < stop then
      return .error (.rangeOutside start stop length)
    else if start = stop then
      return .ok b
    else if start = 0 ∧ stop = length then
      return .ok empty
    else do
      let left ← b.cut start stop
      return .ok left

def deleteBeginning (b : Buffer) (stop : UInt32) : Checked (Except TilingError Buffer) :=
  b.delete 0 stop

def deleteEnding (b : Buffer) (start : UInt32) : Checked (Except TilingError Buffer) := do
  let length ← b.length
  b.delete start length

/-!
## Inserting a stretch
-/

/-- The token to widen: at a boundary between two tokens it is the first of them. -/
def widest (b : Buffer) (offset : UInt32) : Checked Nat := do
  let index ← b.indexAt offset
  if 0 < index then do
    let before ← subIndex index 1
    let boundary ← b.stop before
    if boundary = offset then
      subIndex index 1
    else
      return index
  else
    return index

def insert (b : Buffer) (offset width : UInt32) : Checked (Except TilingError Buffer) :=
  if b.isEmpty then
    .ok (.ok b)
  else do
    let length ← b.length
    if length < offset then
      return .error (.rangeOutside offset offset length)
    else if width = 0 then
      return .ok b
    else if Tiling.Fits length width then do
      let index ← b.widest offset
      let words ← adjust (add · width) b.words index (b.size - index)
      return .ok ⟨words⟩
    else
      return .error (.overflow length width)

/-!
## Joining two lines
-/

def rebase (length : UInt32) : List Token → Checked (List UInt32)
  | [] => .ok []
  | token :: rest => do
      let stop ← add token.stop length
      let moved ← rebase length rest
      return stop :: token.tag :: moved

def append (b c : Buffer) : Checked (Except TilingError Buffer) :=
  if c.isEmpty then
    .ok (.ok b)
  else if b.isEmpty then
    .ok (.ok c)
  else do
    let length ← b.length
    let width ← c.length
    if Tiling.Fits length width then do
      let count ← addIndex b.words.length c.words.length
      room count
      let moved ← rebase length c.tokens
      ofWords (b.words ++ moved)
    else
      return .error (.overflow length width)

end Buffer

end TiledText
