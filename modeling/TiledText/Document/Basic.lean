import TiledText.Line
import TiledText.Settings
import TiledText.Tiling.Packed

/-!
# Documents

A document is a text taken apart into lines, with what is known about each, and
the settings that say how edits treat that knowledge. Tokens arrive line by
line. They are accepted when they form a tiling that covers the line.
-/

namespace TiledText

/-!
## What can go wrong with a document
-/

inductive DocumentError where
  /-- A tiling is malformed, or could not follow an edit. -/
  | tiling (cause : TilingError)
  /-- The edited range is reversed or reaches past the end of the document. -/
  | editOutside (start stop length : Nat)
  | lineOutside (line lineCount : Nat)
  /-- The tiling offered for a line does not end where its text does. -/
  | uncovered (line expected actual : Nat)
deriving DecidableEq, Repr

namespace DocumentError

def message : DocumentError → String
  | tiling cause =>
      cause.message
  | editOutside start stop length =>
      s!"edit range {start}..{stop} is outside document of {length} chars"
  | lineOutside line lineCount =>
      s!"line {line} is out of range (line count {lineCount})"
  | uncovered line expected actual =>
      s!"tokens for line {line} cover {actual} code units, line is {expected}"

end DocumentError

/-!
## Documents
-/

structure Document where
  lines : List Line
  settings : Settings
deriving DecidableEq, Repr

namespace Document

def ofText (text : Text) (settings : Settings) : Document :=
  ⟨text.lines.map Line.fresh, settings⟩

instance : Inhabited Document :=
  ⟨ofText [] default⟩

/-!
## Reading a document

The length of a document counts characters, newlines included. The pending lines
are the unknown ones, from top to bottom.
-/

def text (d : Document) : Text :=
  Text.ofLines (d.lines.map Line.text)

def length (d : Document) : Nat :=
  d.text.length

def lineCount (d : Document) : Nat :=
  d.lines.length

def lineText? (d : Document) (line : Nat) : Option Text :=
  d.lines[line]?.map Line.text

def lineWidth? (d : Document) (line : Nat) : Option Nat :=
  d.lines[line]?.map Line.width

/-- The tiling of a line. There is none when the line is unknown or does not exist. -/
def tiling? (d : Document) (line : Nat) : Option Tiling :=
  d.lines[line]?.bind Line.state

def pending (d : Document) : List Nat :=
  (List.range d.lineCount).filter fun line => (d.tiling? line).isNone

def position? (d : Document) (offset : Nat) : Option Position :=
  (caret? d.lines offset).map Caret.position

/-!
## Storing tokens
-/

def setState (d : Document) (line : Nat) (state : LineState) : Document :=
  { d with lines := d.lines.modify line fun target => { target with state := state } }

def store (d : Document) (line : Nat) (t : Tiling) : Except DocumentError Document :=
  match d.lineWidth? line with
  | none => .error (.lineOutside line d.lineCount)
  | some width =>
      if t.length.toNat = width then
        .ok (d.setState line (some t))
      else
        .error (.uncovered line width t.length.toNat)

/-- Decodes first. A malformed tiling is reported whatever the line. -/
def storeDecoded (d : Document) (line : Nat) :
    Except TilingError Tiling → Except DocumentError Document
  | .ok t => d.store line t
  | .error cause => .error (.tiling cause)

def setTokens (d : Document) (line : Nat) (tokens : List Token) :
    Except DocumentError Document :=
  d.storeDecoded line (Tiling.ofTokens tokens.toArray)

def restore (d : Document) (line : Nat) (packed : Packed) : Except DocumentError Document :=
  d.storeDecoded line (Tiling.ofPacked packed)

def clear (d : Document) (line : Nat) : Except DocumentError Document :=
  if line < d.lineCount then
    .ok (d.setState line none)
  else
    .error (.lineOutside line d.lineCount)

end Document

end TiledText
