import TiledText.Text.Utf16
import TiledText.Tiling.Edit

/-!
# Lines

A document is a list of lines. About a line a tiling may be known. Offsets are resolved to
carets, and ranges of offsets to selections.
-/

namespace TiledText

/-!
## What is known about a line

A line is known when there is a tiling for it, and unknown otherwise. The empty
tiling is a known state: it says that the line has no tokens.

The edits of tilings extend to states. An unknown line stays unknown, and a line
joined from two others is known only when both of them were.
-/

abbrev LineState := Option Tiling

namespace LineState

def through (change : Tiling → Except TilingError Tiling) :
    LineState → Except TilingError LineState
  | none => .ok none
  | some t => (change t).map some

def delete (state : LineState) (start stop : UInt32) : Except TilingError LineState :=
  state.through (·.delete start stop)

def deleteBeginning (state : LineState) (stop : UInt32) : Except TilingError LineState :=
  state.through (·.deleteBeginning stop)

def deleteEnding (state : LineState) (start : UInt32) : Except TilingError LineState :=
  state.through (·.deleteEnding start)

def insert (state : LineState) (offset width : UInt32) : Except TilingError LineState :=
  state.through (·.insert offset width)

/--
Joins two lines. Without the first there is no length to move the second by, and
without the second the end of the joined line would not be covered.
-/
def append : LineState → LineState → Except TilingError LineState
  | some t, some u => (t.append u).map some
  | _, _ => .ok none

end LineState

/-!
## Lines

A line is its text, without a newline, together with what is known about it.
The tiling of a known line has to cover exactly the code units of its text.
`Line.settle` keeps a state only on that condition.
-/

structure Line where
  text : Text
  state : LineState
deriving DecidableEq, Repr

namespace Line

def fresh (text : Text) : Line :=
  ⟨text, none⟩

def covers (text : Text) (t : Tiling) : Bool :=
  t.length.toNat == text.width

/-- A line with the given state, or unknown if the tiling does not cover the text. -/
def settle (text : Text) (state : LineState) : Line :=
  ⟨text, state.filter (covers text)⟩

def width (line : Line) : Nat :=
  line.text.width

end Line

/-!
## Carets and selections

A document is a list of lines, and an offset into it counts characters, the
newline between two lines included. A caret is an offset resolved: the lines
above, the line it stands in, the number of characters before it on that line,
and the lines below. An offset at a newline belongs to the line that the newline ends.

A selection is a pair of carets in order.
-/

/-- A line number and a column in code units, clamped to what an offset can hold. -/
structure Position where
  line : Nat
  column : UInt32
deriving DecidableEq, Repr

structure Caret where
  above : List Line
  line : Line
  column : Nat
  below : List Line
deriving DecidableEq, Repr

namespace Caret

def before (caret : Caret) : Text :=
  caret.line.text.take caret.column

def after (caret : Caret) : Text :=
  caret.line.text.drop caret.column

def position (caret : Caret) : Position :=
  ⟨caret.above.length, UInt32.ofNatClamp caret.before.width⟩

def under (line : Line) (caret : Caret) : Caret :=
  { caret with above := line :: caret.above }

end Caret

/-- Resolves an offset, unless it lies past the end. -/
def caret? : List Line → Nat → Option Caret
  | [], _ => none
  | line :: below, offset =>
      if offset ≤ line.text.length then
        some ⟨[], line, offset, below⟩
      else
        (caret? below (offset - (line.text.length + 1))).map (·.under line)

structure Selection where
  first : Caret
  last : Caret
deriving DecidableEq, Repr

/-- Resolves a range of offsets, unless it is reversed or reaches past the end. -/
def select? (lines : List Line) (start stop : Nat) : Option Selection := do
  let first ← caret? lines start
  let last ← caret? lines stop
  if start ≤ stop then
    some ⟨first, last⟩
  else
    none

namespace Selection

def withinLine (selection : Selection) : Bool :=
  selection.first.position.line == selection.last.position.line

end Selection

end TiledText
