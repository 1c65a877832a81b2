import TiledText.Document.Basic

/-!
# Commands

A document is changed by commands. They store what is known about a line, or they edit the
text, and then the states of the edited lines follow.
-/

namespace TiledText

/-!
## Edits

An edit puts text in the place of a range of characters. Its offsets refer to
the document to which it is applied. A range may be reversed as data; no
document accepts such an edit, and its deleted length is zero. An edit that
takes nothing out and puts nothing in is a no-op.

A script is a list of edits, each of which refers to the document that the one
before it leaves.
-/

structure Edit where
  start : Nat
  stop : Nat
  inserted : Text
deriving DecidableEq, Repr

namespace Edit

def insert (offset : Nat) (text : Text) : Edit :=
  ⟨offset, offset, text⟩

def delete (start stop : Nat) : Edit :=
  ⟨start, stop, []⟩

def replace (start stop : Nat) (text : Text) : Edit :=
  ⟨start, stop, text⟩

def deletedLength (edit : Edit) : Nat :=
  edit.stop - edit.start

def insertedLength (edit : Edit) : Nat :=
  edit.inserted.length

def isNoop (edit : Edit) : Bool :=
  edit.start == edit.stop && edit.inserted.isEmpty

end Edit

abbrev Script := List Edit

/-!
## Replaying an edit on line states

An edit replaces the selected text by some lines of text. The states follow in
two stages. First what remains of the selected lines is joined into the state of
one line, as if the selection had only been deleted. Then that line is split and
widened for what is inserted.
-/

namespace Selection

/-- The state of the line that remains when the selected text is deleted. -/
def joined (selection : Selection) : Except TilingError LineState :=
  let first := selection.first
  let last := selection.last
  if selection.withinLine then
    first.line.state.delete first.position.column last.position.column
  else do
    let head ← first.line.state.deleteEnding first.position.column
    let tail ← last.line.state.deleteBeginning last.position.column
    head.append tail

end Selection

def insertedWidth (text : Text) : UInt32 :=
  UInt32.ofNatClamp text.width

/--
The states of the lines that result when the given lines of text are inserted at
`column` into a line. Lines of which nothing was there before are unknown, and
so is the last line unless `carry` is set.
-/
def distribute (carry : Bool) (column : UInt32) (state : LineState) :
    List Text → Except TilingError (List LineState)
  | [] => .ok []
  | [only] => do
      return [← state.insert column (insertedWidth only)]
  | first :: second :: more => do
      let moved ← if carry then state.deleteBeginning column else .ok none
      let kept ← state.deleteEnding column
      let head ← kept.insert column (insertedWidth first)
      let tail ← moved.insert 0 (insertedWidth ((second :: more).getLast (List.cons_ne_nil _ _)))
      return head :: (List.replicate more.length none ++ [tail])

namespace Selection

/-- One state for each line of the text that takes the place of the selection. -/
def replay (selection : Selection) (carry : Bool) (inserted : Text) :
    Except TilingError (List LineState) := do
  let state ← selection.joined
  distribute carry selection.first.position.column state inserted.lines

end Selection

/-!
## Editing a document

An edit whose range lies in the document always changes the text. When the
states cannot follow, the edited lines become unknown; that is an error only if
the settings say so, and even then the text has changed. An outcome is therefore
a document together with an error, if there is one.
-/

structure Outcome where
  document : Document
  error : Option DocumentError
deriving DecidableEq, Repr

namespace Outcome

/-- The outcome of a change that either succeeds or leaves the document as it was. -/
def ofExcept (before : Document) : Except DocumentError Document → Outcome
  | .ok after => ⟨after, none⟩
  | .error cause => ⟨before, some cause⟩

end Outcome

namespace Document

def splice (d : Document) (selection : Selection) (lines : List Line) : Document :=
  { d with lines := selection.first.above ++ lines ++ selection.last.below }

/-- Replaces the selected text. A state that does not cover its new line is dropped. -/
def replace (d : Document) (selection : Selection) (inserted : Text) : Outcome :=
  let texts := (selection.first.before ++ inserted ++ selection.last.after).lines
  match selection.replay d.settings.carrySplitTokens inserted with
  | .ok states => ⟨d.splice selection (List.zipWith Line.settle texts states), none⟩
  | .error cause =>
      ⟨d.splice selection (texts.map Line.fresh),
        if d.settings.recoverFromErrors then none else some (.tiling cause)⟩

/-- Applies an edit. The range is checked even if the edit changes nothing. -/
def edit (d : Document) (e : Edit) : Outcome :=
  match select? d.lines e.start e.stop with
  | none => ⟨d, some (.editOutside e.start e.stop d.length)⟩
  | some selection =>
      if e.isNoop then
        ⟨d, none⟩
      else
        d.replace selection e.inserted

/-- Applies edits in order and stops at the first error. -/
def run (d : Document) : Script → Outcome
  | [] => ⟨d, none⟩
  | e :: rest =>
      match d.edit e with
      | ⟨after, none⟩ => after.run rest
      | failed => failed

end Document

/-!
## Commands and reachable documents

A command is anything that can be asked of a document and may change it. A
document is reachable when a sequence of commands leads to it from a text about
which nothing is known; a command that fails takes part like any other.
-/

inductive Command where
  | set (line : Nat) (tokens : List Token)
  | restore (line : Nat) (packed : Packed)
  | clear (line : Nat)
  | edit (edit : Edit)
  | run (script : Script)
deriving DecidableEq, Repr

namespace Document

def perform (d : Document) : Command → Outcome
  | .set line tokens => .ofExcept d (d.setTokens line tokens)
  | .restore line packed => .ofExcept d (d.restore line packed)
  | .clear line => .ofExcept d (d.clear line)
  | .edit e => d.edit e
  | .run script => d.run script

inductive Reachable : Document → Prop where
  | ofText (text : Text) (settings : Settings) : Reachable (Document.ofText text settings)
  | perform (d : Document) (command : Command) (before : Reachable d) :
      Reachable (d.perform command).document

end Document

end TiledText
