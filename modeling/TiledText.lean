import TiledText.Bisect
import TiledText.Buffer.Basic
import TiledText.Buffer.Call
import TiledText.Buffer.Checked
import TiledText.Buffer.Edit
import TiledText.Document.Basic
import TiledText.Document.Command
import TiledText.Json.Grammar
import TiledText.Json.Lexeme
import TiledText.Json.Loader
import TiledText.Json.Reader
import TiledText.Line
import TiledText.Settings
import TiledText.Storage.Basic
import TiledText.Storage.Edit
import TiledText.Storage.Rope
import TiledText.Text.Basic
import TiledText.Text.Utf16
import TiledText.Tiling.Basic
import TiledText.Tiling.Edit
import TiledText.Tiling.Packed
import TiledText.Proofs.Buffer.Calls
import TiledText.Proofs.Buffer.Changes
import TiledText.Proofs.Buffer.Commuting
import TiledText.Proofs.Buffer.Decoding
import TiledText.Proofs.Buffer.Deletion
import TiledText.Proofs.Buffer.Dividing
import TiledText.Proofs.Buffer.Fusing
import TiledText.Proofs.Buffer.Grouping
import TiledText.Proofs.Buffer.Insertion
import TiledText.Proofs.Buffer.Joining
import TiledText.Proofs.Buffer.Readers
import TiledText.Proofs.Buffer.Reading
import TiledText.Proofs.Buffer.Refusals
import TiledText.Proofs.Buffer.Searching
import TiledText.Proofs.Buffer.Spans
import TiledText.Proofs.Caret
import TiledText.Proofs.Document.Bare
import TiledText.Proofs.Document.Cache
import TiledText.Proofs.Document.Commuting
import TiledText.Proofs.Document.Edited
import TiledText.Proofs.Document.Errors
import TiledText.Proofs.Document.Forgetting
import TiledText.Proofs.Document.Frame
import TiledText.Proofs.Document.Marks
import TiledText.Proofs.Document.Opacity
import TiledText.Proofs.Document.Piecewise
import TiledText.Proofs.Document.Recovery
import TiledText.Proofs.Document.Refinement
import TiledText.Proofs.Document.Remainder
import TiledText.Proofs.Document.Replacement
import TiledText.Proofs.Document.Seams
import TiledText.Proofs.Document.Soundness
import TiledText.Proofs.Document.Survival
import TiledText.Proofs.Document.Typing
import TiledText.Proofs.Document.Undo
import TiledText.Proofs.Json.Lexeme
import TiledText.Proofs.Json.Number
import TiledText.Proofs.Json.Reader
import TiledText.Proofs.Json.Scanner
import TiledText.Proofs.LessKnown
import TiledText.Proofs.Line
import TiledText.Proofs.Refinement
import TiledText.Proofs.Replay
import TiledText.Proofs.Settings
import TiledText.Proofs.Storage.Commands
import TiledText.Proofs.Storage.Edit
import TiledText.Proofs.Storage.Lines
import TiledText.Proofs.Storage.Positions
import TiledText.Proofs.Storage.Replay
import TiledText.Proofs.Storage.Rope
import TiledText.Proofs.Storage.Scripts
import TiledText.Proofs.Storage.Storing
import TiledText.Proofs.Success
import TiledText.Proofs.Text.Pieces
import TiledText.Proofs.Text.Utf16
import TiledText.Proofs.Tiling.Deletion
import TiledText.Proofs.Tiling.Insertion
import TiledText.Proofs.Tiling.Joining
import TiledText.Proofs.Tiling.Retagging
import TiledText.Proofs.Tiling.RoundTrip
import TiledText.Proofs.Tiling.Tags
import TiledText.Proofs.Json.Loader
