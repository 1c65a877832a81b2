import TiledText.Proofs.Document.Commuting
import TiledText.Proofs.Document.Recovery

/-!
# The text apart from what is known

A document is stripped by forgetting what is known of its lines and how it is set. An edit
of the stripped document leaves what is left of the edited document when that is stripped.
So nothing that is known, and no setting, has a part in what an edit makes of the text, and
the text law of sound documents holds of every document that has the lines of its text.
-/

namespace TiledText

/-!
## Stripping
-/

namespace Line

def bare (line : Line) : Line :=
  fresh line.text

theorem text_bare (line : Line) : line.bare.text = line.text :=
  rfl

end Line

namespace Selection

theorem joined_bare (selection : Selection) :
    (selection.map Line.bare).joined = .ok none := by
  unfold joined
  split
  · rfl
  · rfl

theorem edited_bare {selection : Selection} (sound : (selection.map Line.bare).Sound)
    (carry carry' : Bool) (inserted : Text) :
    (selection.map Line.bare).edited carry' inserted =
      (selection.edited carry inserted).map Line.bare := by
  have texts : (selection.map Line.bare).texts inserted = selection.texts inserted := rfl
  have unknown : (selection.map Line.bare).remainder.state = none := by
    rw [remainder_of_joined selection.joined_bare]
  have count := length_texts sound inserted
  rw [texts] at count
  rw [sound.edited_of_unknown unknown, texts, ← map_text_edited_of_length count carry,
    List.map_map]
  rfl

end Selection

namespace Document

def bare (d : Document) : Document :=
  ⟨d.lines.map Line.bare, default⟩

theorem text_bare (d : Document) : d.bare.text = d.text := by
  rw [text, bare, List.map_map]
  rfl

theorem bare_of_texts {d d' : Document}
    (same : d'.lines.map Line.text = d.lines.map Line.text) : d'.bare = d.bare := by
  have fresh : Line.bare = Line.fresh ∘ Line.text := rfl
  rw [bare, bare, fresh, ← List.map_map, ← List.map_map, same]

theorem sound_bare {d : Document} (sound : d.Sound) : d.bare.Sound where
  nonempty := by
    intro vacant
    exact sound.nonempty (List.map_eq_nil_iff.mp vacant)
  line := by
    intro line member
    rcases List.mem_map.mp member with ⟨origin, inside, rfl⟩
    exact Line.sound_fresh (sound.line origin inside).unbroken

/-!
## Edits of stripped documents
-/

theorem bare_splice (d : Document) (selection : Selection) (lines : List Line) :
    (d.splice selection lines).bare =
      d.bare.splice (selection.map Line.bare) (lines.map Line.bare) := by
  simp [splice, bare, Selection.map, Caret.map]

theorem document_edit_bare {d : Document} (sound : d.bare.Sound) (e : Edit) :
    (d.bare.edit e).document = (d.edit e).document.bare := by
  have found : select? d.bare.lines e.start e.stop =
      (select? d.lines e.start e.stop).map (Selection.map Line.bare) :=
    select?_map Line.text_bare d.lines e.start e.stop
  cases selected : select? d.lines e.start e.stop with
  | none =>
      rw [selected] at found
      rw [edit_of_none selected, edit_of_none found]
  | some selection =>
      rw [selected] at found
      cases change : e.isNoop with
      | true =>
          rw [edit_of_noop selected change, edit_of_noop found change]
      | false =>
          rw [edit_of_selected selected change, edit_of_selected found change, document_replace,
            document_replace, bare_splice,
            Selection.edited_bare (sound_of_select? sound found) d.settings.carrySplitTokens]

theorem after_edits_bare {d : Document} (sound : d.bare.Sound) (edits : List Edit) :
    d.bare.after (edits.map .edit) = (d.after (edits.map .edit)).bare := by
  induction edits generalizing d with
  | nil =>
      rfl
  | cons e rest ih =>
      have step := document_edit_bare sound e
      have later : (d.edit e).document.bare.Sound := step ▸ sound_edit sound e
      show (d.bare.edit e).document.after _ = _
      rw [step]
      exact ih later

/-- The text after some edits can be told from the text before them. -/
theorem text_after_edits {d d' : Document} (sound : d.Sound)
    (same : d'.lines.map Line.text = d.lines.map Line.text) (edits : List Edit) :
    (d'.after (edits.map .edit)).text = (d.after (edits.map .edit)).text := by
  have stripped := bare_of_texts same
  have left := sound_bare sound
  rw [← text_bare (d'.after _), ← text_bare (d.after _), ← after_edits_bare left,
    ← after_edits_bare (stripped ▸ left), stripped]

/-!
## The range of an edit
-/

theorem select?_eq_none_iff {d : Document} (sound : d.Sound) {e : Edit} :
    select? d.lines e.start e.stop = none ↔ e.stop < e.start ∨ d.length < e.stop := by
  constructor
  · intro unresolved
    by_cases ordered : e.start ≤ e.stop
    · right
      apply Nat.lt_of_not_le
      intro bound
      rcases (exists_select?_iff sound.nonempty).mpr ⟨ordered, bound⟩ with ⟨selection, found⟩
      rw [unresolved] at found
      cases found
    · exact Or.inl (Nat.lt_of_not_le ordered)
  · intro outside
    apply Option.eq_none_iff_forall_ne_some.mpr
    intro selection selected
    rcases (exists_select?_iff sound.nonempty).mp ⟨selection, selected⟩ with ⟨ordered, bound⟩
    cases outside with
    | inl reversed =>
        exact Nat.not_lt_of_le ordered reversed
    | inr past =>
        exact Nat.not_lt_of_le bound past

theorem error_edit_eq_outside_iff {d : Document} (sound : d.Sound) {e : Edit}
    {start stop length : Nat} :
    (d.edit e).error = some (.editOutside start stop length) ↔
      (e.stop < e.start ∨ d.length < e.stop) ∧
        start = e.start ∧ stop = e.stop ∧ length = d.length := by
  rw [← select?_eq_none_iff sound]
  constructor
  · intro failed
    cases selected : select? d.lines e.start e.stop with
    | none =>
        rw [edit_of_none selected] at failed
        cases failed
        exact ⟨rfl, rfl, rfl, rfl⟩
    | some selection =>
        have range := (exists_select?_iff sound.nonempty).mp ⟨selection, selected⟩
        rcases tiling_of_error_edit sound range.1 range.2 failed with ⟨inner, impossible⟩
        cases impossible
  · intro described
    rcases described with ⟨outside, rfl, rfl, rfl⟩
    rw [edit_of_none outside]

/-!
## Edits of the text

An edit reports its range exactly when the range is reversed or reaches past the end, and then
it changes nothing. Any other edit puts the inserted text in the place of the range, whatever
else it reports. Documents with the same lines of text, whatever is known of the lines and
however the documents are set, have the same text after the same edits.
-/

theorem edit_splices_text {d : Document} (reachable : d.Reachable) :
    (∀ e : Edit,
      (∀ start stop length, (d.edit e).error = some (.editOutside start stop length) ↔
        (e.stop < e.start ∨ d.length < e.stop) ∧
          start = e.start ∧ stop = e.stop ∧ length = d.length) ∧
      (e.stop < e.start ∨ d.length < e.stop → (d.edit e).document = d) ∧
      (e.start ≤ e.stop → e.stop ≤ d.length →
        (d.edit e).document.text = d.text.take e.start ++ e.inserted ++ d.text.drop e.stop ∧
          (d.edit e).document.length + e.deletedLength = d.length + e.insertedLength)) ∧
    ∀ d' : Document, d'.text = d.text → d'.lines.map Line.text = d'.text.lines →
      ∀ edits : List Edit,
        (d'.after (edits.map .edit)).text = (d.after (edits.map .edit)).text := by
  have sound := reachable.sound
  constructor
  · intro e
    refine ⟨fun start stop length => error_edit_eq_outside_iff sound, ?_, ?_⟩
    · intro outside
      rw [edit_of_none ((select?_eq_none_iff sound).mpr outside)]
    · intro ordered bound
      exact ⟨text_edit sound ordered bound, length_edit sound ordered bound⟩
  · intro d' same lined edits
    rw [same, sound.lines_text] at lined
    exact text_after_edits sound lined edits

/-- An edit that the tilings cannot follow, one out of range, and a stranger to both. -/
theorem edit_splices_text_at_clash :
    let e := Edit.replace 3 4 ['p', '\n', 'q']
    let stranger : Document :=
      ⟨[⟨['x'], some Tiling.empty⟩, ⟨['a'], none⟩, ⟨['b'], some ⟨#[⟨7, 7⟩], by decide⟩⟩,
        ⟨['y'], none⟩], ⟨false, true⟩⟩
    (clashAbove.edit e).error = some (.tiling (.unordered 1)) ∧
      (clashAbove.edit e).document.text = ['x', '\n', 'a', 'p', '\n', 'q', 'b', '\n', 'y'] ∧
      (clashAbove.edit (.insert 8 [])).error = some (.editOutside 8 8 7) ∧
      (stranger.after ([.insert 8 [], e].map .edit)).text =
        (clashAbove.after ([.insert 8 [], e].map .edit)).text := by
  intro e stranger
  have run : clashAbove.Reachable := reachable_after (.ofText _ _) _
  rcases edit_splices_text run with ⟨law, alike⟩
  rcases law e with ⟨_, _, spliced⟩
  rcases law (.insert 8 []) with ⟨outside, _, _⟩
  have text := (spliced (by decide) (by decide +kernel)).1
  refine ⟨by decide +kernel, text.trans (by decide +kernel), ?_, ?_⟩
  · exact (outside 8 8 7).mpr ⟨Or.inr (by decide +kernel), rfl, rfl, by decide +kernel⟩
  · exact alike stranger (by decide +kernel) (by decide +kernel) _

end Document

end TiledText
