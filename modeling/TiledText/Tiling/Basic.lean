import TiledText.Bisect

/-!
# Tilings

A tiling is the sequence of tokens of one line. The tokens stop at strictly
increasing offsets, so they cover the line from its beginning to the last stop
without gaps or overlaps. Only the first token can have width zero.

The empty tiling says that a line has no tokens. That is something known about
the line; where nothing is known there is no tiling at all.
-/

namespace TiledText

/-!
## Tokens

A line of text is classified by tokens laid side by side. A token records where
it stops, counted in UTF-16 code units from the beginning of the line, and the
tag that the classifier gave it. The stop is the first code unit after the token.
Where the token starts is not recorded: it starts where the token before it
stops. Nothing here interprets the tag.

Edits move the end of a token. It grows or retreats with the text around it, or
it is cut short at a given offset.
-/

structure Token where
  stop : UInt32
  tag : UInt32
deriving DecidableEq, Repr, Inhabited

namespace Token

def grow (width : UInt32) (token : Token) : Token :=
  { token with stop := token.stop + width }

def retreat (width : UInt32) (token : Token) : Token :=
  { token with stop := token.stop - width }

def cutAt (stop : UInt32) (token : Token) : Token :=
  { token with stop := stop }

end Token

/-!
## What can go wrong with a tiling

Each constructor is a cause, with the quantities that show it. The wording is in
one place, `TilingError.message`.
-/

inductive TilingError where
  /-- The input does not divide into whole items of `unit` parts each. -/
  | ragged (length unit : Nat)
  /-- The range is reversed or reaches past the end of the line. -/
  | rangeOutside (start stop length : UInt32)
  /-- The token at `index` is the first that does not stop after its predecessor. -/
  | unordered (index : Nat)
  /-- The line would be too long for its offsets. -/
  | overflow (length width : UInt32)
deriving DecidableEq, Repr

namespace TilingError

def message : TilingError → String
  | ragged length unit =>
      s!"invalid token encoding: length {length} is not a multiple of {unit}"
  | rangeOutside start stop length =>
      s!"offset range {start}..{stop} is outside line length {length}"
  | unordered index =>
      s!"token end offsets must strictly increase (token {index})"
  | overflow length width =>
      s!"line length overflow: {length} + {width}"

end TilingError

/-!
## Increasing stops
-/

def Increasing (tokens : List Token) : Prop :=
  tokens.Pairwise (fun a b => a.stop < b.stop)

instance (tokens : List Token) : Decidable (Increasing tokens) :=
  inferInstanceAs (Decidable (tokens.Pairwise _))

/-- The position of the first token that does not stop after its predecessor. -/
def firstDisorder? : List Token → Option Nat
  | [] => none
  | [_] => none
  | a :: b :: rest =>
      if b.stop ≤ a.stop then
        some 1
      else
        (firstDisorder? (b :: rest)).map (· + 1)

theorem increasing_cons_cons {a b : Token} {rest : List Token} (step : a.stop < b.stop)
    (increasing : Increasing (b :: rest)) : Increasing (a :: b :: rest) := by
  refine List.pairwise_cons.mpr ⟨?_, increasing⟩
  intro c member
  cases List.mem_cons.mp member with
  | inl same =>
      rw [same]
      exact step
  | inr later =>
      exact UInt32.lt_trans step ((List.pairwise_cons.mp increasing).1 c later)

theorem firstDisorder?_eq_none_iff (tokens : List Token) :
    firstDisorder? tokens = none ↔ Increasing tokens := by
  fun_induction firstDisorder? tokens with
  | case1 =>
      simp [Increasing]
  | case2 a =>
      simp [Increasing]
  | case3 a b rest back =>
      simp only [reduceCtorEq, false_iff]
      intro increasing
      have step := (List.pairwise_cons.mp increasing).1 b (List.mem_cons_self ..)
      exact UInt32.not_lt.mpr back step
  | case4 a b rest forward ih =>
      rw [Option.map_eq_none_iff, ih]
      constructor
      · exact increasing_cons_cons (UInt32.not_le.mp forward)
      · intro increasing
        exact (List.pairwise_cons.mp increasing).2

/-!
## The type

The size of a tiling is the number of its tokens. Its length is the length of
the line that the tokens cover. Read one after the other, the tokens give spans,
the stretches of the line that have one tag each.
-/

structure Tiling where
  tokens : Array Token
  ordered : Increasing tokens.toList
deriving DecidableEq, Repr

structure Span where
  start : UInt32
  stop : UInt32
  tag : UInt32
deriving DecidableEq, Repr

namespace Tiling

def empty : Tiling :=
  ⟨#[], List.Pairwise.nil⟩

instance : Inhabited Tiling :=
  ⟨empty⟩

def ofTokens (tokens : Array Token) : Except TilingError Tiling :=
  match found : firstDisorder? tokens.toList with
  | some index => .error (.unordered index)
  | none => .ok ⟨tokens, (firstDisorder?_eq_none_iff _).mp found⟩

def toList (t : Tiling) : List Token :=
  t.tokens.toList

def isEmpty (t : Tiling) : Bool :=
  t.tokens.isEmpty

def size (t : Tiling) : Nat :=
  t.tokens.size

/-- Where the last of some tokens stops, or the beginning of the line. -/
def reach (tokens : Array Token) : UInt32 :=
  match tokens.back? with
  | some last => last.stop
  | none => 0

def length (t : Tiling) : UInt32 :=
  reach t.tokens

def token? (t : Tiling) (index : Nat) : Option Token :=
  t.tokens[index]?

/--
Where the token at `index` starts. The position after the last token is allowed
as well, and then the answer is the length of the line.
-/
def start? (t : Tiling) : Nat → Option UInt32
  | 0 => some 0
  | index + 1 => (t.token? index).map Token.stop

/-- Reads each token as a span that begins where the one before it ends. -/
def spansFrom (start : UInt32) : List Token → List Span
  | [] => []
  | token :: rest => ⟨start, token.stop, token.tag⟩ :: spansFrom token.stop rest

def spans (t : Tiling) : List Span :=
  spansFrom 0 t.toList

/-!
## Searching by offset
-/

/-- The token lies wholly before the code unit at `offset`. -/
def stopsBy (offset : UInt32) (token : Token) : Bool :=
  token.stop ≤ offset

/-- The token does not even touch the boundary at `offset`. -/
def stopsBefore (offset : UInt32) (token : Token) : Bool :=
  token.stop < offset

/--
The index of the token that holds the code unit at `offset`. Past the end of the
line it is the last token.
-/
def indexAt (t : Tiling) (offset : UInt32) : Nat :=
  min (partitionPoint t.tokens (stopsBy offset)) (t.size - 1)

theorem partitioned_stopsBy (t : Tiling) (offset : UInt32) :
    Partitioned (stopsBy offset) t.tokens.toList := by
  apply t.ordered.imp
  intro a b step later
  simp only [stopsBy, decide_eq_true_eq] at *
  exact UInt32.le_trans (UInt32.le_of_lt step) later

theorem partitioned_stopsBefore (t : Tiling) (offset : UInt32) :
    Partitioned (stopsBefore offset) t.tokens.toList := by
  apply t.ordered.imp
  intro a b step later
  simp only [stopsBefore, decide_eq_true_eq] at *
  exact UInt32.lt_trans step later

/-!
## Stops and the length of the line
-/

theorem stop_le_reach {tokens : Array Token} (ordered : Increasing tokens.toList)
    {token : Token} (member : token ∈ tokens) : token.stop ≤ reach tokens := by
  obtain ⟨i, inside, rfl⟩ := Array.mem_iff_getElem.mp member
  have final : tokens.size - 1 < tokens.size := by omega
  have last : reach tokens = (tokens[tokens.size - 1]).stop := by
    simp [reach, Array.back?, Array.getElem?_eq_getElem final]
  rw [last]
  cases Nat.eq_or_lt_of_le (show i ≤ tokens.size - 1 by omega) with
  | inl same =>
      simp [← same]
  | inr lt =>
      have step := List.pairwise_iff_getElem.mp ordered i (tokens.size - 1) (by simpa)
        (by simpa using final) lt
      exact UInt32.le_of_lt (by simpa using step)

theorem stop_le_length (t : Tiling) {token : Token} (member : token ∈ t.tokens) :
    token.stop ≤ t.length :=
  stop_le_reach t.ordered member

end Tiling

end TiledText
