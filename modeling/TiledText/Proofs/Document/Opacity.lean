import TiledText.Proofs.Document.Soundness
import TiledText.Proofs.Tiling.Retagging

/-!
# Documents do not interpret tags

Two documents that begin with the same text take the same commands, except that every
tag offered to the second has been rewritten by a fixed function. Nothing else comes
out differently. The second document has the lines of the first, with the tags rewritten
in what is known of them, and a command fails in both or in neither, for the same reason.

Rewriting the tags goes through a document from its states up to its outcomes. At each
step the law is the same: what is done to rewritten data is the rewriting of what is
done to the data.
-/

namespace TiledText

variable (g : UInt32 → UInt32)

/-!
## States and lines

No operation looks at a tag. Tags that are rewritten before it and after it come to the same.
-/

namespace LineState

def retag (state : LineState) : LineState :=
  state.map (Tiling.retag g)

theorem through_retag {change change' : Tiling → Except TilingError Tiling}
    (agree : ∀ t, change' (t.retag g) = (change t).map (Tiling.retag g)) (state : LineState) :
    (state.retag g).through change' = (state.through change).map (retag g) := by
  cases state with
  | none =>
      rfl
  | some t =>
      show (change' (t.retag g)).map some = ((change t).map some).map (retag g)
      rw [agree]
      cases change t with
      | error cause =>
          rfl
      | ok u =>
          rfl

theorem delete_retag (state : LineState) (start stop : UInt32) :
    (state.retag g).delete start stop = (state.delete start stop).map (retag g) :=
  through_retag g (fun t => t.delete_retag g start stop) state

theorem deleteBeginning_retag (state : LineState) (stop : UInt32) :
    (state.retag g).deleteBeginning stop = (state.deleteBeginning stop).map (retag g) :=
  through_retag g (fun t => t.delete_retag g 0 stop) state

theorem deleteEnding_retag (state : LineState) (start : UInt32) :
    (state.retag g).deleteEnding start = (state.deleteEnding start).map (retag g) := by
  apply through_retag
  intro t
  rw [Tiling.deleteEnding, Tiling.length_retag]
  exact t.delete_retag g start t.length

theorem insert_retag (state : LineState) (offset width : UInt32) :
    (state.retag g).insert offset width = (state.insert offset width).map (retag g) :=
  through_retag g (fun t => t.insert_retag g offset width) state

theorem append_retag (first second : LineState) :
    (first.retag g).append (second.retag g) = (first.append second).map (retag g) := by
  cases first with
  | none =>
      rfl
  | some t =>
      cases second with
      | none =>
          rfl
      | some u =>
          show ((t.retag g).append (u.retag g)).map some = ((t.append u).map some).map (retag g)
          rw [Tiling.append_retag]
          cases t.append u with
          | error cause =>
              rfl
          | ok v =>
              rfl

end LineState

namespace Line

def retag (line : Line) : Line :=
  { line with state := line.state.retag g }

theorem text_retag (line : Line) : (line.retag g).text = line.text :=
  rfl

theorem settle_retag (text : Text) (state : LineState) :
    settle text (state.retag g) = (settle text state).retag g := by
  cases state with
  | none =>
      rfl
  | some t =>
      have same : covers text (t.retag g) = covers text t := by
        rw [covers, covers, Tiling.length_retag]
      show (⟨text, (some (t.retag g)).filter (covers text)⟩ : Line) =
        ⟨text, LineState.retag g ((some t).filter (covers text))⟩
      rw [Option.filter_some, Option.filter_some, same]
      split
      · rfl
      · rfl

end Line

/-!
## Carets and selections
-/

namespace Caret

def retag (caret : Caret) : Caret where
  above := caret.above.map (Line.retag g)
  line := caret.line.retag g
  column := caret.column
  below := caret.below.map (Line.retag g)

theorem position_retag (caret : Caret) : (caret.retag g).position = caret.position :=
  position_map (Line.text_retag g) caret

end Caret

namespace Selection

def retag (selection : Selection) : Selection :=
  ⟨selection.first.retag g, selection.last.retag g⟩

theorem withinLine_retag (selection : Selection) :
    (selection.retag g).withinLine = selection.withinLine :=
  withinLine_map (Line.text_retag g) selection

end Selection

theorem select?_retag (lines : List Line) (start stop : Nat) :
    select? (lines.map (Line.retag g)) start stop =
      (select? lines start stop).map (Selection.retag g) :=
  select?_map (Line.text_retag g) lines start stop

/-!
## Replaying
-/

theorem bind_of_map {x : Except ε α} {f : α → α'} {next : α → Except ε β}
    {next' : α' → Except ε β'} {h : β → β'} (agree : ∀ a, next' (f a) = (next a).map h) :
    (x.map f >>= next') = (x >>= next).map h := by
  cases x with
  | error cause =>
      rfl
  | ok a =>
      exact agree a

theorem carried_retag (carry : Bool) (column : UInt32) (state : LineState) :
    carried carry column (state.retag g) =
      (carried carry column state).map (LineState.retag g) := by
  cases carry with
  | false =>
      rfl
  | true =>
      exact state.deleteBeginning_retag g column

theorem distribute_retag (carry : Bool) (column : UInt32) (state : LineState)
    (pieces : List Text) :
    distribute carry column (state.retag g) pieces =
      (distribute carry column state pieces).map (List.map (LineState.retag g)) := by
  cases pieces with
  | nil =>
      rfl
  | cons first rest =>
      cases rest with
      | nil =>
          rw [distribute, distribute, LineState.insert_retag]
          exact bind_of_map fun wider => rfl
      | cons second more =>
          rcases exists_middle first second more with ⟨middle, last, shape⟩
          rw [shape, distribute_concat, distribute_concat, carried_retag,
            LineState.deleteEnding_retag]
          refine bind_of_map fun moved => bind_of_map fun kept => ?_
          rw [LineState.insert_retag, LineState.insert_retag]
          refine bind_of_map fun head => bind_of_map fun tail => ?_
          simp [pure, Except.pure, Except.map, LineState.retag]

namespace Selection

theorem joined_retag (selection : Selection) :
    (selection.retag g).joined = selection.joined.map (LineState.retag g) := by
  unfold joined
  rw [withinLine_retag]
  simp only [retag, Caret.position_retag]
  split
  · exact LineState.delete_retag g _ _ _
  · show (LineState.deleteEnding (selection.first.line.state.retag g) _ >>= _) = _
    rw [LineState.deleteEnding_retag]
    refine bind_of_map fun head => ?_
    show (LineState.deleteBeginning (selection.last.line.state.retag g) _ >>= _) = _
    rw [LineState.deleteBeginning_retag]
    exact bind_of_map fun tail => LineState.append_retag g head tail

theorem replay_retag (selection : Selection) (carry : Bool) (inserted : Text) :
    (selection.retag g).replay carry inserted =
      (selection.replay carry inserted).map (List.map (LineState.retag g)) := by
  unfold replay
  rw [joined_retag]
  refine bind_of_map fun state => ?_
  show distribute carry (selection.first.retag g).position.column _ _ = _
  rw [Caret.position_retag]
  exact distribute_retag g carry _ state inserted.lines

theorem edited_retag (selection : Selection) (carry : Bool) (inserted : Text) :
    (selection.retag g).edited carry inserted =
      (selection.edited carry inserted).map (Line.retag g) := by
  have texts : (selection.retag g).texts inserted = selection.texts inserted := rfl
  unfold edited
  rw [texts, replay_retag]
  cases selection.replay carry inserted with
  | ok states =>
      show List.zipWith Line.settle _ (states.map (LineState.retag g)) = _
      simp [List.zipWith_map_right, List.map_zipWith, Line.settle_retag]
  | error cause =>
      show (selection.texts inserted).map Line.fresh = _
      rw [List.map_map]
      rfl

end Selection

/-!
## Documents
-/

namespace Document

def retag (d : Document) : Document :=
  { d with lines := d.lines.map (Line.retag g) }

theorem retag_ofText (text : Text) (settings : Settings) :
    (ofText text settings).retag g = ofText text settings := by
  simp [retag, ofText, Function.comp_def, Line.fresh, Line.retag, LineState.retag]

theorem text_retag (d : Document) : (d.retag g).text = d.text := by
  simp [text, retag, Function.comp_def, Line.retag]

theorem lineCount_retag (d : Document) : (d.retag g).lineCount = d.lineCount :=
  List.length_map _

theorem lineWidth?_retag (d : Document) (line : Nat) :
    (d.retag g).lineWidth? line = d.lineWidth? line := by
  unfold lineWidth? retag
  rw [List.getElem?_map, Option.map_map]
  rfl

theorem tiling?_retag (d : Document) (line : Nat) :
    (d.retag g).tiling? line = (d.tiling? line).map (Tiling.retag g) := by
  unfold tiling? retag
  rw [List.getElem?_map]
  cases d.lines[line]? with
  | none =>
      rfl
  | some target =>
      rfl

theorem pending_retag (d : Document) : (d.retag g).pending = d.pending := by
  simp [pending, lineCount_retag, tiling?_retag]

/-!
## Storing and clearing
-/

theorem setState_retag (d : Document) (line : Nat) (state : LineState) :
    (d.retag g).setState line (state.retag g) = (d.setState line state).retag g := by
  have lines : (d.lines.map (Line.retag g)).modify line
        (fun target => { target with state := state.retag g }) =
      (d.lines.modify line fun target => { target with state := state }).map (Line.retag g) := by
    apply List.ext_getElem?
    intro n
    simp only [List.getElem?_modify, List.getElem?_map, Option.map_eq_map, Option.map_map]
    split
    · rfl
    · rfl
  simp [setState, retag, lines]

theorem store_retag (d : Document) (line : Nat) (t : Tiling) :
    (d.retag g).store line (t.retag g) = (d.store line t).map (retag g) :=
  store_map (lineWidth?_retag g d line) (lineCount_retag g d) (t.length_retag g)
    (setState_retag g d line (some t))

theorem storeDecoded_retag (d : Document) (line : Nat)
    {decoded decoded' : Except TilingError Tiling}
    (agree : decoded' = decoded.map (Tiling.retag g)) :
    (d.retag g).storeDecoded line decoded' = (d.storeDecoded line decoded).map (retag g) := by
  rw [agree]
  cases decoded with
  | error cause =>
      rfl
  | ok t =>
      exact store_retag g d line t

theorem clear_retag (d : Document) (line : Nat) :
    (d.retag g).clear line = (d.clear line).map (retag g) :=
  clear_map (lineCount_retag g d) (setState_retag g d line none)

/-!
## Edits
-/

theorem replace_retag (d : Document) (selection : Selection) (inserted : Text) :
    (d.retag g).replace (selection.retag g) inserted =
      (d.replace selection inserted).map (retag g) := by
  have settings : (d.retag g).settings = d.settings := rfl
  apply Outcome.ext
  · show _ = retag g (d.replace selection inserted).document
    rw [document_replace, document_replace, settings, selection.edited_retag]
    simp [splice, retag, Selection.retag, Caret.retag]
  · show _ = (d.replace selection inserted).error
    unfold replace
    rw [settings, selection.replay_retag]
    cases selection.replay d.settings.carrySplitTokens inserted with
    | ok states =>
        rfl
    | error cause =>
        rfl

theorem edit_retag (d : Document) (e : Edit) :
    (d.retag g).edit e = (d.edit e).map (retag g) := by
  have found := select?_retag g d.lines e.start e.stop
  cases selected : select? d.lines e.start e.stop with
  | none =>
      rw [selected] at found
      rw [edit_of_none selected, edit_of_none found, length, text_retag]
      rfl
  | some selection =>
      rw [selected] at found
      cases change : e.isNoop with
      | true =>
          rw [edit_of_noop selected change, edit_of_noop found change]
          rfl
      | false =>
          rw [edit_of_selected selected change, edit_of_selected found change]
          exact replace_retag g d selection e.inserted

theorem run_retag (d : Document) (script : Script) :
    (d.retag g).run script = (d.run script).map (retag g) := by
  induction script generalizing d with
  | nil =>
      rfl
  | cons e rest ih =>
      have step := edit_retag g d e
      have error : ((d.retag g).edit e).error = (d.edit e).error := by
        rw [step]
        rfl
      cases reported : (d.edit e).error with
      | none =>
          rw [run_cons_of_none reported, run_cons_of_none (error.trans reported), step]
          exact ih (d.edit e).document
      | some cause =>
          rw [run_cons_of_some reported, run_cons_of_some (error.trans reported), step]

end Document

/-!
## Runs
-/

def Command.retag : Command → Command
  | .set line tokens => .set line (tokens.map (Token.retag g))
  | .restore line packed => .restore line (packed.retag g)
  | .clear line => .clear line
  | .edit e => .edit e
  | .run script => .run script

namespace Document

theorem perform_retag (d : Document) (command : Command) :
    (d.retag g).perform (command.retag g) = (d.perform command).map (retag g) := by
  cases command with
  | set line tokens =>
      apply Outcome.ofExcept_map
      apply storeDecoded_retag
      rw [← List.map_toArray]
      exact Tiling.ofTokens_retag g tokens.toArray
  | restore line packed =>
      apply Outcome.ofExcept_map
      exact storeDecoded_retag g d line (Tiling.ofPacked_retag g packed)
  | clear line =>
      exact Outcome.ofExcept_map (clear_retag g d line)
  | edit e =>
      exact edit_retag g d e
  | run script =>
      exact run_retag g d script

theorem after_retag (d : Document) (commands : List Command) :
    (d.retag g).after (commands.map (Command.retag g)) = (d.after commands).retag g := by
  induction commands generalizing d with
  | nil =>
      rfl
  | cons command rest ih =>
      have step := congrArg Outcome.document (perform_retag g d command)
      show ((d.retag g).perform (command.retag g)).document.after _ = _
      rw [step]
      exact ih (d.perform command).document

/-!
## Runs under other tags

Commands that differ only in their tags, which a function rewrites, leave the same text and the
same lines pending. A line that is known has as many tokens in both documents, with the same
stops, and the tags are rewritten. A further command has the same error, or none in both.
-/

theorem after_retag_agrees (text : Text) (settings : Settings) (commands : List Command) :
    let d := (ofText text settings).after commands
    let d' := (ofText text settings).after (commands.map (Command.retag g))
    d'.text = d.text ∧ d'.pending = d.pending ∧
      (∀ line t, d.tiling? line = some t →
        ∃ t', d'.tiling? line = some t' ∧ t'.size = t.size ∧
          t'.words = Packed.retagWords g t.words ∧
          ∀ i token, t.token? i = some token → t'.token? i = some ⟨token.stop, g token.tag⟩) ∧
      ∀ command : Command,
        (d'.perform (command.retag g)).error = (d.perform command).error := by
  intro d d'
  have rewritten : d' = d.retag g := by
    have run := after_retag g (ofText text settings) commands
    rw [retag_ofText] at run
    exact run
  rw [rewritten]
  refine ⟨text_retag g d, pending_retag g d, ?_, ?_⟩
  · intro line t known
    refine ⟨t.retag g, ?_, t.size_retag g, t.words_retag g, ?_⟩
    · rw [tiling?_retag, known]
      rfl
    · intro i token there
      rw [Tiling.token?_retag, there]
      rfl
  · intro command
    rw [perform_retag]
    rfl

end Document

end TiledText
