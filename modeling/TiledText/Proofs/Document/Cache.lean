import TiledText.Proofs.Document.Soundness
import TiledText.Proofs.Tiling.RoundTrip

/-!
# Copying what is known

What is known of a document can be kept aside, line by line, and given to another document
with the same text. The other accepts all of it, whatever was done to either before: a
tiling that was found on a line covers the text of that line, and it decodes from its own
words and bytes.

A copied line agrees with the original, and no later copy disturbs it. So in whatever order
the lines are copied, and however often, the documents agree in the end on every line that
was copied at all.
-/

namespace TiledText

namespace Document

/-!
## Setting a state
-/

theorem getElem?_setState (d : Document) (line n : Nat) (state : LineState) :
    (d.setState line state).lines[n]? =
      if line = n then d.lines[n]?.map fun target => { target with state := state }
      else d.lines[n]? := by
  rw [setState, List.getElem?_modify]
  split
  · rfl
  · simp

theorem texts_setState (d : Document) (line : Nat) (state : LineState) :
    (d.setState line state).lines.map Line.text = d.lines.map Line.text := by
  apply List.ext_getElem?
  intro n
  rw [List.getElem?_map, List.getElem?_map, getElem?_setState]
  split
  · rw [Option.map_map]
    rfl
  · rfl

theorem store_of_covered {d : Document} {line : Nat} {text : Text}
    (there : d.lineText? line = some text) {t : Tiling} (covers : t.length.toNat = text.width) :
    d.store line t = .ok (d.setState line (some t)) := by
  have width : d.lineWidth? line = some text.width := by
    rw [lineText?, Option.map_eq_some_iff] at there
    rcases there with ⟨target, found, rfl⟩
    rw [lineWidth?, found]
    rfl
  unfold store
  rw [width]
  exact if_pos covers

/-!
## Copying a line

A tiling found in a document covers the text of its line, and so it covers the line of any
document with the same text.
-/

/-- The commands that give a line the state that it has in `d`. -/
inductive Copies (d : Document) (line : Nat) : Command → Prop where
  | words (t : Tiling) (known : d.tiling? line = some t) :
      Copies d line (.restore line (.words t.words))
  | bytes (t : Tiling) (known : d.tiling? line = some t) :
      Copies d line (.restore line (.bytes t.bytes))
  | pending (inside : line < d.lineCount) (unknown : d.tiling? line = none) :
      Copies d line (.clear line)

variable {d d' : Document}

theorem lineText?_eq (same : d'.lines.map Line.text = d.lines.map Line.text) (line : Nat) :
    d'.lineText? line = d.lineText? line := by
  rw [lineText?, lineText?, ← List.getElem?_map, same, List.getElem?_map]

theorem lineCount_eq_of_texts (same : d'.lines.map Line.text = d.lines.map Line.text) :
    d'.lineCount = d.lineCount := by
  have count := congrArg List.length same
  rw [List.length_map, List.length_map] at count
  exact count

theorem Sound.store_eq_ok (sound : d.Sound)
    (same : d'.lines.map Line.text = d.lines.map Line.text) {line : Nat} {t : Tiling}
    (known : d.tiling? line = some t) : d'.store line t = .ok (d'.setState line (some t)) := by
  rcases tiling?_eq_some_iff.mp known with ⟨target, there, state⟩
  have text : d'.lineText? line = some target.text := by
    rw [lineText?_eq same, lineText?, there]
    rfl
  exact store_of_covered text ((sound.line _ (List.mem_of_getElem? there)).covered t state)

theorem Sound.restore_eq_ok (sound : d.Sound)
    (same : d'.lines.map Line.text = d.lines.map Line.text) {line : Nat} {t : Tiling}
    (known : d.tiling? line = some t) {packed : Packed} (decodes : Tiling.ofPacked packed = .ok t) :
    d'.restore line packed = .ok (d'.setState line (some t)) := by
  rw [restore, decodes]
  exact sound.store_eq_ok same known

theorem Sound.restore_words (sound : d.Sound)
    (same : d'.lines.map Line.text = d.lines.map Line.text) {line : Nat} {t : Tiling}
    (known : d.tiling? line = some t) :
    d'.restore line (.words t.words) = .ok (d'.setState line (some t)) :=
  sound.restore_eq_ok same known (Tiling.ofWords_eq_ok_iff.mpr rfl)

theorem Sound.restore_bytes (sound : d.Sound)
    (same : d'.lines.map Line.text = d.lines.map Line.text) {line : Nat} {t : Tiling}
    (known : d.tiling? line = some t) :
    d'.restore line (.bytes t.bytes) = .ok (d'.setState line (some t)) :=
  sound.restore_eq_ok same known (Tiling.ofBytes_eq_ok_iff.mpr rfl)

theorem Sound.perform_of_copies (sound : d.Sound)
    (same : d'.lines.map Line.text = d.lines.map Line.text) {line : Nat} {command : Command}
    (copies : d.Copies line command) :
    d'.perform command = ⟨d'.setState line (d.tiling? line), none⟩ := by
  cases copies with
  | words t known =>
      show Outcome.ofExcept d' (d'.restore line _) = _
      rw [sound.restore_words same known, known]
      rfl
  | bytes t known =>
      show Outcome.ofExcept d' (d'.restore line _) = _
      rw [sound.restore_bytes same known, known]
      rfl
  | pending inside unknown =>
      show Outcome.ofExcept d' (d'.clear line) = _
      rw [clear, if_pos (lineCount_eq_of_texts same ▸ inside), unknown]
      rfl

/-!
## Copying one line after another
-/

theorem setState_agrees (same : d'.lines.map Line.text = d.lines.map Line.text) (line : Nat) :
    (d'.setState line (d.tiling? line)).lines[line]? = d.lines[line]? := by
  have texts : d'.lines[line]?.map Line.text = d.lines[line]?.map Line.text :=
    lineText?_eq same line
  rw [getElem?_setState, if_pos rfl, tiling?]
  cases original : d.lines[line]? with
  | none =>
      rw [original] at texts
      rw [Option.map_eq_none_iff.mp texts]
      rfl
  | some target =>
      rw [original] at texts
      rcases Option.map_eq_some_iff.mp texts with ⟨copy, there, text⟩
      rw [there, Option.map_some, text]
      rfl

theorem setState_keeps (same : d'.lines.map Line.text = d.lines.map Line.text) (line : Nat)
    {n : Nat} (agree : d'.lines[n]? = d.lines[n]?) :
    (d'.setState line (d.tiling? line)).lines[n]? = d.lines[n]? := by
  by_cases again : line = n
  · rw [← again]
    exact setState_agrees same line
  · rw [getElem?_setState, if_neg again]
    exact agree

theorem Sound.texts_after_copies (sound : d.Sound)
    (same : d'.lines.map Line.text = d.lines.map Line.text) {commands : List Command}
    (copies : ∀ command ∈ commands, ∃ line, d.Copies line command) :
    (d'.after commands).lines.map Line.text = d.lines.map Line.text := by
  induction commands generalizing d' with
  | nil =>
      exact same
  | cons command rest ih =>
      rcases copies command (List.mem_cons_self ..) with ⟨line, copy⟩
      have later : ∀ other ∈ rest, ∃ line, d.Copies line other :=
        fun other member => copies other (List.mem_cons_of_mem _ member)
      show ((d'.perform command).document.after rest).lines.map Line.text = _
      rw [sound.perform_of_copies same copy]
      exact ih ((texts_setState d' line _).trans same) later

/-- In the end the documents agree where they agreed before, and on every line that was copied. -/
theorem Sound.lines_after_copies (sound : d.Sound)
    (same : d'.lines.map Line.text = d.lines.map Line.text) {commands : List Command}
    (copies : ∀ command ∈ commands, ∃ line, d.Copies line command) {n : Nat}
    (settled : d'.lines[n]? = d.lines[n]? ∨ ∃ command ∈ commands, d.Copies n command) :
    (d'.after commands).lines[n]? = d.lines[n]? := by
  induction commands generalizing d' with
  | nil =>
      rcases settled with agree | ⟨_, impossible, _⟩
      · exact agree
      · cases impossible
  | cons command rest ih =>
      have later : ∀ other ∈ rest, ∃ line, d.Copies line other :=
        fun other member => copies other (List.mem_cons_of_mem _ member)
      -- Whichever line the first command copies, it leaves the documents agreeing there.
      have step : ∀ line, d.Copies line command →
          (d'.perform command).document = d'.setState line (d.tiling? line) := by
        intro line copy
        rw [sound.perform_of_copies same copy]
      rcases copies command (List.mem_cons_self ..) with ⟨line, copy⟩
      have texts : (d'.perform command).document.lines.map Line.text = d.lines.map Line.text := by
        rw [step line copy, texts_setState, same]
      apply ih texts later
      rcases settled with agree | ⟨chosen, member, copied⟩
      · left
        rw [step line copy]
        exact setState_keeps same line agree
      · cases List.mem_cons.mp member with
        | inl first =>
            left
            rw [first] at copied
            rw [step n copied]
            exact setState_agrees same n
        | inr rest =>
            right
            exact ⟨chosen, rest, copied⟩

/-!
## Copying known lines

Between reachable documents with the same text, what is known of a line can be copied as bytes
or as words, and then the one has the tiling of the other. Copying every line, in any order,
leaves both with the same lines, and no copy reports an error.
-/

theorem after_copying (reachable : d.Reachable) (reachable' : d'.Reachable)
    (same : d'.text = d.text) :
    (∀ line t, d.tiling? line = some t → ∃ after : Document,
      d'.restore line (.bytes t.bytes) = .ok after ∧ d'.restore line (.words t.words) = .ok after ∧
        after.tiling? line = some t ∧ after.text = d'.text ∧
        ∀ n, n ≠ line → after.lines[n]? = d'.lines[n]?) ∧
      ∀ commands : List Command, (∀ command ∈ commands, ∃ line, d.Copies line command) →
        (∀ line, line < d.lineCount → ∃ command ∈ commands, d.Copies line command) →
          (d'.after commands).lines = d.lines ∧ (d'.after commands).pending = d.pending ∧
            ∀ before command later, commands = before ++ command :: later →
              ((d'.after before).perform command).error = none := by
  have sound := reachable.sound
  have texts : d'.lines.map Line.text = d.lines.map Line.text := by
    rw [← reachable'.sound.lines_text, same, sound.lines_text]
  constructor
  · intro line t known
    refine ⟨d'.setState line (some t), sound.restore_bytes texts known,
      sound.restore_words texts known, ?_, ?_, ?_⟩
    · have agrees := setState_agrees texts line
      rw [known] at agrees
      rw [tiling?, agrees]
      exact known
    · exact congrArg Text.ofLines (texts_setState d' line (some t))
    · intro n other
      rw [getElem?_setState, if_neg other.symm]
  · intro commands copies covers
    have lines : (d'.after commands).lines = d.lines := by
      apply List.ext_getElem?
      intro n
      apply sound.lines_after_copies texts copies
      by_cases inside : n < d.lineCount
      · exact Or.inr (covers n inside)
      · have count : d'.lineCount ≤ n := by
          rw [lineCount_eq_of_texts texts]
          exact Nat.le_of_not_lt inside
        left
        rw [List.getElem?_eq_none (Nat.le_of_not_lt inside), List.getElem?_eq_none count]
    refine ⟨lines, ?_, ?_⟩
    · unfold pending lineCount tiling?
      rw [lines]
    · intro before command later split
      rw [split] at copies
      have between := sound.texts_after_copies texts fun other member =>
        copies other (List.mem_append_left _ member)
      rcases copies command (by simp) with ⟨line, copy⟩
      rw [sound.perform_of_copies between copy]

def cached : Document :=
  (ofText ['a', 'b', '\n', 'c'] default).after [.set 0 [⟨1, 7⟩, ⟨2, 8⟩]]

/-- The same text, with other tokens and by other commands. -/
def rebuilt : Document :=
  (ofText ['a', '\n', 'c'] default).after
    [.set 0 [⟨1, 3⟩], .set 1 [⟨1, 9⟩], .edit (.insert 1 ['b'])]

theorem after_copying_rebuilt :
    rebuilt.lines ≠ cached.lines ∧
      (rebuilt.after [.clear 1, .restore 0 (.words [1, 7, 2, 8])]).lines = cached.lines := by
  have known : cached.tiling? 0 = some ⟨#[⟨1, 7⟩, ⟨2, 8⟩], by decide⟩ := by decide +kernel
  have first : cached.Copies 0 (.restore 0 (.words [1, 7, 2, 8])) := .words _ known
  have second : cached.Copies 1 (.clear 1) := .pending (by decide +kernel) (by decide +kernel)
  have run : cached.Reachable := reachable_after (.ofText _ _) _
  have run' : rebuilt.Reachable := reachable_after (.ofText _ _) _
  have law := (after_copying run run' (by decide +kernel)).2
  refine ⟨by decide +kernel, (law [.clear 1, .restore 0 (.words [1, 7, 2, 8])] ?_ ?_).1⟩
  · intro command member
    rcases List.mem_cons.mp member with rfl | later
    · exact ⟨1, second⟩
    · rw [List.mem_singleton.mp later]
      exact ⟨0, first⟩
  · intro line inside
    have count : cached.lineCount = 2 := by decide +kernel
    rw [count] at inside
    match line with
    | 0 =>
        exact ⟨_, by simp, first⟩
    | 1 =>
        exact ⟨_, by simp, second⟩

end Document
end TiledText
