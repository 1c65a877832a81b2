import TiledText.Json.Lexeme

/-!
# The grammar of JSON

A text is read against a grammar that says which texts a value can be written as. A text is
written from lexemes and blanks, and the lexemes of a value are those of its parts, with the
brackets around them, a comma between any two, and a colon behind the name of a member.
-/

namespace TiledText
namespace Json

/-!
## Numbers

A number is an optional minus, an integer, an optional fraction and an optional exponent. Only
the number zero begins with a zero.
-/

structure Digits (text : Text) : Prop where
  nonempty : text ≠ []
  digit : ∀ c ∈ text, c.isDigit = true

inductive Integer : Text → Prop
  | zero : Integer ['0']
  | digits {text : Text} : Digits text → text.head? ≠ some '0' → Integer text

inductive Fraction : Text → Prop
  | none : Fraction []
  | point {digits : Text} : Digits digits → Fraction ('.' :: digits)

inductive Exponent : Text → Prop
  | none : Exponent []
  | mark {c : Char} {sign digits : Text} : c = 'e' ∨ c = 'E' →
      sign = [] ∨ sign = ['+'] ∨ sign = ['-'] → Digits digits → Exponent (c :: (sign ++ digits))

inductive Number : Text → Prop
  | parts {minus integer fraction exponent : Text} : minus = [] ∨ minus = ['-'] →
      Integer integer → Fraction fraction → Exponent exponent →
      Number (minus ++ (integer ++ (fraction ++ exponent)))

/-!
## Lexemes

Words are told apart by what is no part of a word: a quote, a blank, a punctuation mark or the
end of the text. Blanks may stand anywhere between lexemes.
-/

/-- Where a word ends, if not with the text. -/
def isBoundary (c : Char) : Bool :=
  c == '"' || isBlank c || (punctuation? c).isSome

def hexValue (sofar : Nat) (digits : List Nat) : Nat :=
  digits.foldl (fun value digit => value * 16 + digit) sofar

/-- The inside of a string and the code units it stands for. -/
inductive Quoted : List UInt16 → Text → Prop
  | done : Quoted [] []
  | plain {c : Char} {units : List UInt16} {rest : Text} : c ≠ '"' → c ≠ '\\' → ¬c < ' ' →
      Quoted units rest → Quoted (utf16Units c ++ units) (c :: rest)
  | escape {c : Char} {unit : UInt16} {units : List UInt16} {rest : Text} :
      escape? c = some unit → Quoted units rest → Quoted (unit :: units) ('\\' :: c :: rest)
  | hex {digits : Text} {values : List Nat} {units : List UInt16} {rest : Text} :
      digits.length = 4 → digits.mapM hexDigit? = some values → Quoted units rest →
      Quoted (UInt16.ofNat (hexValue 0 values) :: units) ('\\' :: 'u' :: (digits ++ rest))

inductive Spelled : Lexeme → Text → Prop
  | mark {c : Char} {lexeme : Lexeme} : punctuation? c = some lexeme → Spelled lexeme [c]
  | null : Spelled .null ['n', 'u', 'l', 'l']
  | on : Spelled (.bool true) ['t', 'r', 'u', 'e']
  | off : Spelled (.bool false) ['f', 'a', 'l', 's', 'e']
  | number {literal : Text} : Number literal → Spelled (.number literal) literal
  | string {units : List UInt16} {inner : Text} : Quoted units inner →
      Spelled (.string units) ('"' :: (inner ++ ['"']))

def Lexeme.isWord : Lexeme → Bool
  | .null => true
  | .bool _ => true
  | .number _ => true
  | _ => false

/-- The text consists of the lexemes, with blanks anywhere between them. -/
inductive Written : List Lexeme → Text → Prop
  | done : Written [] []
  | blank {c : Char} {lexemes : List Lexeme} {rest : Text} : isBlank c = true →
      Written lexemes rest → Written lexemes (c :: rest)
  | lexeme {lexeme : Lexeme} {own : Text} {lexemes : List Lexeme} {rest : Text} :
      Spelled lexeme own → (lexeme.isWord = true → ∀ c ∈ rest.head?, isBoundary c = true) →
      Written lexemes rest → Written (lexeme :: lexemes) (own ++ rest)

/-!
## Values

Numbers keep their spelling. Strings are sequences of UTF-16 code units, because escapes can
write surrogates that have no partner. The members of an object keep their order, and a name can
occur more than once.
-/

inductive Value where
  | null
  | bool (value : Bool)
  | number (literal : Text)
  | string (units : List UInt16)
  | array (items : List Value)
  | object (members : List (List UInt16 × Value))
deriving Repr, Inhabited

mutual

def Value.lexemes : Value → List Lexeme
  | .null => [.null]
  | .bool value => [.bool value]
  | .number literal => [.number literal]
  | .string units => [.string units]
  | .array items => .beginArray :: ([.comma].intercalate (eachItem items) ++ [.endArray])
  | .object members => .beginObject :: ([.comma].intercalate (eachMember members) ++ [.endObject])

def eachItem : List Value → List (List Lexeme)
  | [] => []
  | item :: more => item.lexemes :: eachItem more

def eachMember : List (List UInt16 × Value) → List (List Lexeme)
  | [] => []
  | (name, value) :: more => (.string name :: .colon :: value.lexemes) :: eachMember more

end

/-- The text consists of the lexemes of the value. -/
def Value.WrittenAs (value : Value) (text : Text) : Prop :=
  Written value.lexemes text

end Json
end TiledText
