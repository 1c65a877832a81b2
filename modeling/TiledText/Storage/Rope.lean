import Mathlib.Algebra.GroupWithZero.Nat
import TiledText.Buffer.Checked
import TiledText.Line

/-!
# Ropes

A rope keeps a text so that it can be changed anywhere. It is asked for lines and for
offsets by number. The laws say what it answers inside the text. Of a number outside of the
text they say nothing, and the rope may fault on it.

On top of a rope stand the reads of a line and of a position. Where they count on from one
number to another, the sum and the difference are checked.
-/

namespace TiledText

namespace Text

/-- The number of characters on the lines above a line, with their newlines. -/
def startOfLine (text : Text) (line : Nat) : Nat :=
  ((text.lines.take line).map fun part => part.length + 1).sum

/-- A line with the newline that ends it. The last line has none. -/
def endedLine? (text : Text) (line : Nat) : Option Text :=
  text.lines[line]?.map fun part =>
    if line + 1 < text.lines.length then part ++ ['\n'] else part

/-- The text without the newline at its end, if there is one. -/
def chomp (text : Text) : Text :=
  if text.getLast? = some '\n' then text.dropLast else text

end Text

/-!
## The interface
-/

class Rope (R : Type) where
  ofText : Text → R
  text : R → Text
  length : R → Nat
  lineCount : R → Nat
  /-- A line with the newline that ends it, if there is such a line. -/
  line? : R → Nat → Option Text
  /-- The number of the line that an offset is on. -/
  lineAt : R → Nat → Checked Nat
  /-- The offset at which a line begins. -/
  lineStart : R → Nat → Checked Nat
  /-- The number of code units before an offset. -/
  unitsBefore : R → Nat → Checked Nat
  remove : R → Nat → Nat → Checked R
  insert : R → Nat → Text → Checked R

/-- The laws of ropes. -/
class LawfulRope (R : Type) [Rope R] : Prop where
  text_ofText (text : Text) : Rope.text (Rope.ofText text : R) = text
  length_eq (rope : R) : Rope.length rope = (Rope.text rope).length
  lineCount_eq (rope : R) : Rope.lineCount rope = (Rope.text rope).lines.length
  line?_eq (rope : R) (line : Nat) : Rope.line? rope line = (Rope.text rope).endedLine? line
  lineAt_eq (rope : R) {offset : Nat} (inside : offset ≤ (Rope.text rope).length) :
    Rope.lineAt rope offset = .ok (((Rope.text rope).take offset).count '\n')
  lineStart_eq (rope : R) {line : Nat} (inside : line < (Rope.text rope).lines.length) :
    Rope.lineStart rope line = .ok ((Rope.text rope).startOfLine line)
  unitsBefore_eq (rope : R) {offset : Nat} (inside : offset ≤ (Rope.text rope).length) :
    Rope.unitsBefore rope offset = .ok (Text.width ((Rope.text rope).take offset))
  remove_eq (rope : R) {start stop : Nat} (ordered : start ≤ stop)
    (inside : stop ≤ (Rope.text rope).length) :
    ∃ left, Rope.remove rope start stop = .ok left ∧
      Rope.text left = (Rope.text rope).take start ++ (Rope.text rope).drop stop
  insert_eq (rope : R) {offset : Nat} (inside : offset ≤ (Rope.text rope).length)
    (inserted : Text) :
    ∃ wider, Rope.insert rope offset inserted = .ok wider ∧
      Rope.text wider = (Rope.text rope).take offset ++ inserted ++ (Rope.text rope).drop offset

/-!
## Reads
-/

namespace Rope

open Checked

variable {R : Type} [Rope R]

/-- Where a line ends, before the newline. -/
def lineEnd (rope : R) (line : Nat) : Checked Nat := do
  let next ← addIndex line 1
  if next < lineCount rope then do
    let start ← lineStart rope next
    subIndex start 1
  else
    return length rope

def lineWidth? (rope : R) (line : Nat) : Checked (Option Nat) :=
  if lineCount rope ≤ line then
    .ok none
  else do
    let start ← lineStart rope line
    let stop ← lineEnd rope line
    let through ← unitsBefore rope stop
    let before ← unitsBefore rope start
    let width ← subIndex through before
    return some width

def lineText? (rope : R) (line : Nat) : Option Text :=
  (line? rope line).map Text.chomp

def position (rope : R) (offset : Nat) : Checked Position := do
  let line ← lineAt rope offset
  let start ← lineStart rope line
  let through ← unitsBefore rope offset
  let before ← unitsBefore rope start
  let column ← subIndex through before
  return ⟨line, UInt32.ofNatClamp column⟩

end Rope

/-!
## A text as a rope

The plainest rope is the text itself, which faults on every number outside of it.
-/

instance : Rope Text where
  ofText := id
  text := id
  length := List.length
  lineCount text := text.lines.length
  line? := Text.endedLine?
  lineAt text offset :=
    if offset ≤ text.length then .ok ((text.take offset).count '\n') else .error .outside
  lineStart text line :=
    if line ≤ text.lines.length then .ok (min (text.startOfLine line) text.length)
    else .error .outside
  unitsBefore text offset :=
    if offset ≤ text.length then .ok (Text.width (text.take offset)) else .error .outside
  remove text start stop :=
    if start ≤ stop ∧ stop ≤ text.length then .ok (text.take start ++ text.drop stop)
    else .error .outside
  insert text offset inserted :=
    if offset ≤ text.length then .ok (text.take offset ++ inserted ++ text.drop offset)
    else .error .outside

end TiledText
