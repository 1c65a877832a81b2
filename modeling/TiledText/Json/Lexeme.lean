import TiledText.Text.Utf16

/-!
# JSON lexemes

The lexemes of a JSON text are its punctuation marks, its strings, and its
words. A word is a longest run of other characters without blanks: a number or
one of the three names `null`, `true` and `false`.
-/

namespace TiledText
namespace Json

inductive Lexeme where
  | beginObject
  | endObject
  | beginArray
  | endArray
  | colon
  | comma
  | null
  | bool (value : Bool)
  | number (literal : Text)
  | string (units : List UInt16)
deriving DecidableEq, Repr

/-!
## Characters
-/

def isBlank (c : Char) : Bool :=
  c == ' ' || c == '\t' || c == '\n' || c == '\r'

def punctuation? : Char → Option Lexeme
  | '\x7b' => some .beginObject
  | '\x7d' => some .endObject
  | '[' => some .beginArray
  | ']' => some .endArray
  | ':' => some .colon
  | ',' => some .comma
  | _ => none

def escape? : Char → Option UInt16
  | '"' => some 0x22
  | '\\' => some 0x5C
  | '/' => some 0x2F
  | 'b' => some 0x08
  | 'f' => some 0x0C
  | 'n' => some 0x0A
  | 'r' => some 0x0D
  | 't' => some 0x09
  | _ => none

def hexDigit? (c : Char) : Option Nat :=
  if '0' ≤ c ∧ c ≤ '9' then
    some (c.toNat - '0'.toNat)
  else if 'a' ≤ c ∧ c ≤ 'f' then
    some (c.toNat - 'a'.toNat + 10)
  else if 'A' ≤ c ∧ c ≤ 'F' then
    some (c.toNat - 'A'.toNat + 10)
  else
    none

/-!
## Numbers

A number has an optional minus, digits without a superfluous zero in front, an
optional fraction and an optional exponent. Each function below passes over one
of these parts and returns what follows it.
-/

def afterMinus : Text → Text
  | '-' :: rest => rest
  | text => text

def afterSign : Text → Text
  | '-' :: rest => rest
  | '+' :: rest => rest
  | text => text

def afterDigits? : Text → Option Text
  | [] => none
  | c :: rest =>
      if c.isDigit then
        some (rest.dropWhile Char.isDigit)
      else
        none

def afterInteger? : Text → Option Text
  | '0' :: rest => some rest
  | text => afterDigits? text

def afterFraction? : Text → Option Text
  | '.' :: rest => afterDigits? rest
  | text => some text

def afterExponent? : Text → Option Text
  | 'e' :: rest => afterDigits? (afterSign rest)
  | 'E' :: rest => afterDigits? (afterSign rest)
  | text => some text

def isNumber (text : Text) : Bool :=
  (afterInteger? (afterMinus text) >>= afterFraction? >>= afterExponent?) == some []

/-!
## Words
-/

def word? (text : Text) : Option Lexeme :=
  if text = ['n', 'u', 'l', 'l'] then
    some .null
  else if text = ['t', 'r', 'u', 'e'] then
    some (.bool true)
  else if text = ['f', 'a', 'l', 's', 'e'] then
    some (.bool false)
  else if isNumber text then
    some (.number text)
  else
    none

/-!
## Scanning

The scanner takes characters one at a time. It keeps the lexemes that are
complete and the part it is in the middle of, all in reverse. That part is a
word, a string, an escape right after its backslash, or a unit of which one more
hexadecimal digit than `missing` is still to come. Inside a string every
character stands for itself except the quote, the backslash and the control
characters, which are not allowed.
-/

inductive Mode where
  | word (sofar : Text)
  | string (units : List UInt16)
  | escape (units : List UInt16)
  | hex (units : List UInt16) (missing value : Nat)
deriving DecidableEq, Repr

structure Scanner where
  mode : Mode
  done : List Lexeme
deriving DecidableEq, Repr

namespace Scanner

def start : Scanner :=
  ⟨.word [], []⟩

/-- The complete lexemes, with the unfinished word taken as finished. -/
def close? (sofar : Text) (done : List Lexeme) : Option (List Lexeme) :=
  match sofar with
  | [] => some done
  | _ => (word? sofar.reverse).map (· :: done)

def step? (scanner : Scanner) (c : Char) : Option Scanner :=
  match scanner.mode with
  | .word sofar =>
      if c = '"' then
        (close? sofar scanner.done).map (⟨.string [], ·⟩)
      else if isBlank c then
        (close? sofar scanner.done).map (⟨.word [], ·⟩)
      else
        match punctuation? c with
        | some mark => (close? sofar scanner.done).map fun done => ⟨.word [], mark :: done⟩
        | none => some { scanner with mode := .word (c :: sofar) }
  | .string units =>
      if c = '"' then
        some ⟨.word [], .string units.reverse :: scanner.done⟩
      else if c = '\\' then
        some { scanner with mode := .escape units }
      else if c < ' ' then
        none
      else
        some { scanner with mode := .string ((utf16Units c).reverse ++ units) }
  | .escape units =>
      if c = 'u' then
        some { scanner with mode := .hex units 3 0 }
      else
        (escape? c).map fun unit => { scanner with mode := .string (unit :: units) }
  | .hex units missing value =>
      (hexDigit? c).map fun digit =>
        match missing with
        | 0 => { scanner with mode := .string (UInt16.ofNat (value * 16 + digit) :: units) }
        | fewer + 1 => { scanner with mode := .hex units fewer (value * 16 + digit) }

/-- The lexemes in order, if the text may end here. -/
def result? (scanner : Scanner) : Option (List Lexeme) :=
  match scanner.mode with
  | .word sofar => (close? sofar scanner.done).map List.reverse
  | _ => none

end Scanner

/-- The lexemes of a text, if it consists of lexemes and blanks only. -/
def lexemes? (text : Text) : Option (List Lexeme) := do
  (← text.foldlM Scanner.step? Scanner.start).result?

end Json
end TiledText
