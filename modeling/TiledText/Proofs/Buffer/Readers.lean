import Mathlib.Logic.ExistsUnique
import TiledText.Proofs.Buffer.Searching

/-!
# Readers

A buffer is read token by token, span by span, by index, and as a whole for its length. The
readers agree, and the spans lie side by side from the beginning of the line to its end.

An index is not bound to the buffer. The words of a token stand at twice its index, and that
product may be too large for an index itself. No token is found there, for the reader of tokens
looks at the product itself. A start is the stop of the token before, and its reader leaves the
product to the machine. Where the product is a fault, so is every read beyond the tokens. Where
it wraps, the read comes around, and it may give the start of another token.
-/

namespace TiledText

namespace Tiling

/-!
## Spans side by side
-/

end Tiling

/-!
## Starts by index
-/

namespace Buffer

open Checked

end Buffer

namespace Tiling

/-!
## Readers and spans
-/

/-- The place of the token before would be 0 if the product came around. -/
example : pairsAfterHairline.buffer.startBy .faults 9223372036854775809 = .error .overflow :=
  rfl

example : pairsAfterHairline.buffer.startBy .wraps 9223372036854775809 =
    pairsAfterHairline.buffer.startBy .faults 1 :=
  rfl

end Tiling

end TiledText
