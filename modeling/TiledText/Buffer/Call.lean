import TiledText.Buffer.Edit

/-!
# Calls

Buffers are worked with by calls. A call brings data from outside, or it names buffers
by their places in a pool. A buffer that a call makes joins the pool at its end, and
from then on it can be named as often as one likes.

The same calls can be put to tilings. There every computation has a result, and what
does not fit is refused with an error.
-/

namespace TiledText

inductive Call where
  | decode (packed : Packed)
  | encode (tokens : List Token)
  | delete (place : Nat) (start stop : UInt32)
  | deleteBeginning (place : Nat) (stop : UInt32)
  | deleteEnding (place : Nat) (start : UInt32)
  | insert (place : Nat) (offset width : UInt32)
  | append (place other : Nat)
  | length (place : Nat)
  | find (place : Nat) (offset : UInt32)
  | token (place index : Nat)
  | tokens (place : Nat)
  | spans (place : Nat)
deriving DecidableEq, Repr

/-- The number of bytes that the data from outside takes up in memory. -/
def Call.footprint : Call → Nat
  | .decode (.words words) => 4 * words.length
  | .decode (.bytes bytes) => bytes.length
  | .encode list => 8 * list.length
  | _ => 0

inductive Answer (β : Type) where
  | built (b : β)
  | refused (error : TilingError)
  | length (length : UInt32)
  | index (index : Nat)
  | token (token : Option Token)
  | tokens (tokens : List Token)
  | spans (spans : List Span)
  /-- There is nothing at the place. -/
  | missing
deriving DecidableEq, Repr

namespace Answer

def ofExcept : Except TilingError β → Answer β
  | .ok b => .built b
  | .error error => .refused error

/-- What has been made joins the pool. -/
def made : Answer β → List β
  | .built b => [b]
  | _ => []

def map (f : β → γ) : Answer β → Answer γ
  | .built b => .built (f b)
  | .refused error => .refused error
  | .length value => .length value
  | .index value => .index value
  | .token value => .token value
  | .tokens value => .tokens value
  | .spans value => .spans value
  | .missing => .missing

end Answer

/-!
## Calls to buffers
-/

namespace Buffer

def answer (pool : List Buffer) : Call → Checked (Answer Buffer)
  | .decode packed => do
      let result ← ofPacked packed
      return .ofExcept result
  | .encode tokens => do
      let result ← ofTokens tokens
      return .ofExcept result
  | .delete place start stop => pool[place]?.elim (.ok .missing) fun b => do
      let result ← b.delete start stop
      return .ofExcept result
  | .deleteBeginning place stop => pool[place]?.elim (.ok .missing) fun b => do
      let result ← b.deleteBeginning stop
      return .ofExcept result
  | .deleteEnding place start => pool[place]?.elim (.ok .missing) fun b => do
      let result ← b.deleteEnding start
      return .ofExcept result
  | .insert place offset width => pool[place]?.elim (.ok .missing) fun b => do
      let result ← b.insert offset width
      return .ofExcept result
  | .append place other => pool[place]?.elim (.ok .missing) fun b =>
      pool[other]?.elim (.ok .missing) fun c => do
        let result ← b.append c
        return .ofExcept result
  | .length place => pool[place]?.elim (.ok .missing) fun b => do
      let length ← b.length
      return .length length
  | .find place offset => pool[place]?.elim (.ok .missing) fun b => do
      let index ← b.indexAt offset
      return .index index
  | .token place index => pool[place]?.elim (.ok .missing) fun b => do
      let token ← b.token? index
      return .token token
  | .tokens place => pool[place]?.elim (.ok .missing) fun b => .ok (.tokens b.tokens)
  | .spans place => pool[place]?.elim (.ok .missing) fun b => .ok (.spans b.spans)

/-- The answers to calls one after the other, up to the first fault. -/
def run (pool : List Buffer) : List Call → Checked (List (Answer Buffer))
  | [] => .ok []
  | call :: rest => do
      let reply ← answer pool call
      let replies ← run (pool ++ reply.made) rest
      return reply :: replies

end Buffer

/-!
## Calls to tilings
-/

namespace Tiling

def answer (pool : List Tiling) : Call → Answer Tiling
  | .decode packed => .ofExcept (ofPacked packed)
  | .encode tokens => .ofExcept (ofTokens tokens.toArray)
  | .delete place start stop =>
      pool[place]?.elim .missing fun t => .ofExcept (t.delete start stop)
  | .deleteBeginning place stop =>
      pool[place]?.elim .missing fun t => .ofExcept (t.deleteBeginning stop)
  | .deleteEnding place start =>
      pool[place]?.elim .missing fun t => .ofExcept (t.deleteEnding start)
  | .insert place offset width =>
      pool[place]?.elim .missing fun t => .ofExcept (t.insert offset width)
  | .append place other =>
      pool[place]?.elim .missing fun t =>
        pool[other]?.elim .missing fun u => .ofExcept (t.append u)
  | .length place => pool[place]?.elim .missing fun t => .length t.length
  | .find place offset => pool[place]?.elim .missing fun t => .index (t.indexAt offset)
  | .token place index => pool[place]?.elim .missing fun t => .token (t.token? index)
  | .tokens place => pool[place]?.elim .missing fun t => .tokens t.toList
  | .spans place => pool[place]?.elim .missing fun t => .spans t.spans

def run (pool : List Tiling) : List Call → List (Answer Tiling)
  | [] => []
  | call :: rest =>
      let reply := answer pool call
      reply :: run (pool ++ reply.made) rest

end Tiling

end TiledText
