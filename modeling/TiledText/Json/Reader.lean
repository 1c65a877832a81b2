import TiledText.Json.Grammar

/-!
# Reading JSON

The reader takes lexemes one at a time. It keeps the arrays and objects that are
still open, innermost first, and what it expects next. Nesting is therefore
bounded by nothing but the text.
-/

namespace TiledText
namespace Json

/-!
## States of the reader

A frame is an open array or object with its complete parts, the latest first.

A value may be expected, or a value at the beginning of an array that can also
end at once. In an object the reader expects a name after complete members, or a
first name or the end, and then the colon. After a complete value it expects a
comma or the end of the innermost frame.
-/

inductive Frame where
  | items (done : List Value)
  | member (done : List (List UInt16 × Value)) (name : List UInt16)

inductive Expectation where
  | value
  | itemOrEnd
  | name (done : List (List UInt16 × Value))
  | nameOrEnd
  | colon (done : List (List UInt16 × Value)) (name : List UInt16)
  | next (value : Value)

structure Reader where
  expected : Expectation
  frames : List Frame

namespace Reader

def start : Reader :=
  ⟨.value, []⟩

/-- Takes a lexeme at which a value can begin. -/
def beginValue? (frames : List Frame) : Lexeme → Option Reader
  | .null => some ⟨.next .null, frames⟩
  | .bool value => some ⟨.next (.bool value), frames⟩
  | .number literal => some ⟨.next (.number literal), frames⟩
  | .string units => some ⟨.next (.string units), frames⟩
  | .beginArray => some ⟨.itemOrEnd, .items [] :: frames⟩
  | .beginObject => some ⟨.nameOrEnd, frames⟩
  | _ => none

/-- Takes a lexeme that can follow a complete value in the innermost frame. -/
def continue? (value : Value) : List Frame → Lexeme → Option Reader
  | .items done :: frames, .comma => some ⟨.value, .items (value :: done) :: frames⟩
  | .items done :: frames, .endArray => some ⟨.next (.array (value :: done).reverse), frames⟩
  | .member done name :: frames, .comma => some ⟨.name ((name, value) :: done), frames⟩
  | .member done name :: frames, .endObject =>
      some ⟨.next (.object ((name, value) :: done).reverse), frames⟩
  | _, _ => none

def step? (reader : Reader) (lexeme : Lexeme) : Option Reader :=
  match reader.expected, lexeme with
  | .value, lexeme => beginValue? reader.frames lexeme
  | .itemOrEnd, .endArray => some ⟨.next (.array []), reader.frames.tail⟩
  | .itemOrEnd, lexeme => beginValue? reader.frames lexeme
  | .name done, .string name => some ⟨.colon done name, reader.frames⟩
  | .nameOrEnd, .string name => some ⟨.colon [] name, reader.frames⟩
  | .nameOrEnd, .endObject => some ⟨.next (.object []), reader.frames⟩
  | .colon done name, .colon => some ⟨.value, .member done name :: reader.frames⟩
  | .next value, lexeme => continue? value reader.frames lexeme
  | _, _ => none

/-- The value that has been read, if it is complete and nothing is open. -/
def result? (reader : Reader) : Option Value :=
  match reader.expected, reader.frames with
  | .next value, [] => some value
  | _, _ => none

end Reader

/-- Reads a sequence of lexemes that forms exactly one value. -/
def ofLexemes? (lexemes : List Lexeme) : Option Value := do
  (← lexemes.foldlM Reader.step? Reader.start).result?

def parse? (text : Text) : Option Value := do
  ofLexemes? (← lexemes? text)

end Json
end TiledText
