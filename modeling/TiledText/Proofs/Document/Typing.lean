import TiledText.Proofs.Document.Errors
import TiledText.Proofs.Document.Remainder

/-!
# Typing and pasting

Text without a newline can be inserted at once or one character after another. Each
character finds the column anew and chooses a token to widen, and after each of them
the line is settled again. Still the line that is left is the same.

What typing leaves on a line is known exactly if the line was known and its widened
tokens reach the end of the text. Two insertions one after the other satisfy this
together, because the room of the second is made at the end of the room of the first.
Tokens that do not reach far enough never catch up, so a line that has become unknown
on the way is unknown after pasting as well.
-/

namespace TiledText

/-!
## The line that is typed in

Text without a newline goes into the line of the caret, and no other line is touched.
-/

theorem insertedWidth_append {text more : Text} (fits : (text ++ more).width < UInt32.size) :
    insertedWidth (text ++ more) = insertedWidth text + insertedWidth more := by
  rw [Text.width_append] at fits
  have first : (insertedWidth text).toNat = text.width := toNat_insertedWidth (by omega)
  have second : (insertedWidth more).toNat = more.width := toNat_insertedWidth (by omega)
  apply UInt32.toNat_inj.mp
  rw [UInt32.toNat_add, first, second, Nat.mod_eq_of_lt fits, ← Text.width_append]
  exact toNat_insertedWidth (by rwa [Text.width_append])

namespace Caret

def typed (caret : Caret) (text : Text) : Line :=
  match caret.line.state.insert caret.position.column (insertedWidth text) with
  | .ok wider => .settle (caret.before ++ text ++ caret.after) wider
  | .error _ => .fresh (caret.before ++ text ++ caret.after)

/-- The caret behind the text that has been typed. -/
def past (caret : Caret) (text : Text) : Caret :=
  { caret with line := caret.typed text, column := caret.before.length + text.length }

theorem text_typed (caret : Caret) (text : Text) :
    (caret.typed text).text = caret.before ++ text ++ caret.after := by
  unfold typed
  cases caret.line.state.insert caret.position.column (insertedWidth text) with
  | ok wider =>
      rfl
  | error cause =>
      rfl

theorem before_past (caret : Caret) (text : Text) :
    (caret.past text).before = caret.before ++ text := by
  show (caret.typed text).text.take (caret.before.length + text.length) = caret.before ++ text
  rw [text_typed, ← List.length_append, List.take_left]

theorem after_past (caret : Caret) (text : Text) : (caret.past text).after = caret.after := by
  show (caret.typed text).text.drop (caret.before.length + text.length) = caret.after
  rw [text_typed, ← List.length_append, List.drop_left]

theorem prior_past (caret : Caret) (text : Text) :
    (caret.past text).prior = caret.prior ++ text := by
  rw [prior, before_past, ← List.append_assoc]
  rfl

theorem unbroken_typed {caret : Caret} (sound : caret.line.Sound) {text : Text}
    (unbroken : '\n' ∉ text) : '\n' ∉ caret.before ++ text ++ caret.after := by
  have before : '\n' ∉ caret.before := fun member => sound.unbroken (List.mem_of_mem_take member)
  have after : '\n' ∉ caret.after := fun member => sound.unbroken (List.mem_of_mem_drop member)
  exact Text.newline_not_mem_append (Text.newline_not_mem_append before unbroken) after

theorem sound_typed {caret : Caret} (sound : caret.line.Sound) {text : Text}
    (unbroken : '\n' ∉ text) : (caret.typed text).Sound := by
  have line := unbroken_typed sound unbroken
  unfold typed
  cases caret.line.state.insert caret.position.column (insertedWidth text) with
  | ok wider =>
      exact Line.sound_settle line wider
  | error cause =>
      exact Line.sound_fresh line

theorem width_typed (caret : Caret) (text : Text) :
    (caret.typed text).text.width = caret.line.text.width + text.width := by
  have parts := caret.width_before_add_width_after
  rw [text_typed, Text.width_append, Text.width_append]
  omega

/-!
## What is known of it

The line that has been typed in is known exactly if the line before was, with a tiling that can
be widened for the text.
-/

/--
A tiling of the line before becomes a tiling of the line after when its tokens, widened
for the text, reach the end of the line.
-/
structure Widens (caret : Caret) (text : Text) (t u : Tiling) : Prop where
  tokens : u.tokens = t.widenTokens caret.position.column (insertedWidth text)
  length : u.length.toNat = caret.line.text.width + text.width

theorem Widens.width_lt {caret : Caret} {text : Text} {t u : Tiling}
    (widens : caret.Widens text t u) : caret.line.text.width + text.width < UInt32.size := by
  rw [← widens.length]
  exact u.length.toNat_lt_size

theorem fits_insertedWidth {caret : Caret} (sound : caret.line.Sound) {t : Tiling}
    (known : caret.line.state = some t) {text : Text}
    (room : caret.line.text.width + text.width < UInt32.size) :
    Tiling.Fits t.length (insertedWidth text) := by
  rw [Tiling.Fits, sound.covered t known, toNat_insertedWidth (by omega)]
  exact room

theorem state_typed_eq_some_iff {caret : Caret} (sound : caret.line.Sound) {text : Text}
    {u : Tiling} :
    (caret.typed text).state = some u ↔
      ∃ t, caret.line.state = some t ∧ caret.Widens text t u := by
  have reaches := width_typed caret text
  rw [text_typed] at reaches
  constructor
  · intro found
    unfold typed at found
    cases inserted : caret.line.state.insert caret.position.column (insertedWidth text) with
    | error cause =>
        rw [inserted] at found
        cases found
    | ok wider =>
        rw [inserted] at found
        rcases Line.state_settle_eq_some_iff.mp found with ⟨rfl, covers⟩
        rcases LineState.through_eq_some_iff.mp inserted with ⟨t, known, widened⟩
        exact ⟨t, known, Tiling.tokens_insert widened, covers.trans reaches⟩
  · intro widened
    rcases widened with ⟨t, known, widens⟩
    have fits := fits_insertedWidth sound known widens.width_lt
    have inserted := (Tiling.insert_eq_ok_iff (column_le_length sound known) fits).mpr widens.tokens
    have wider : caret.line.state.insert caret.position.column (insertedWidth text) =
        .ok (some u) := LineState.through_eq_some_iff.mpr ⟨t, known, inserted⟩
    unfold typed
    rw [wider]
    exact Line.state_settle_eq_some_iff.mpr ⟨rfl, widens.length.trans reaches.symm⟩

/-- Given room, a tiling can be widened unless text is typed where there is no token. -/
theorem exists_widens {caret : Caret} (sound : caret.line.Sound) {t : Tiling}
    (known : caret.line.state = some t) {text : Text}
    (room : caret.line.text.width + text.width < UInt32.size)
    (bare : t.isEmpty = true → text = []) : ∃ u, caret.Widens text t u := by
  have covered := sound.covered t known
  cases tokens : t.isEmpty with
  | true =>
      rw [bare tokens]
      exact ⟨t, (t.widenTokens_zero _).symm, covered⟩
  | false =>
      have fits := fits_insertedWidth sound known room
      rcases t.insert_eq_ok (column_le_length sound known) fits with ⟨u, inserted⟩
      refine ⟨u, Tiling.tokens_insert inserted, ?_⟩
      rw [Tiling.length_insert inserted tokens, covered, toNat_insertedWidth (by omega)]

/-!
## Typing on

A tiling is widened for a whole text exactly if it is widened for the beginning of the text and
then for the rest.
-/

theorem column_past {caret : Caret} {text : Text}
    (room : caret.line.text.width + text.width < UInt32.size) :
    (caret.past text).position.column = caret.position.column + insertedWidth text := by
  have parts := caret.width_before_add_width_after
  show insertedWidth (caret.past text).before = insertedWidth caret.before + insertedWidth text
  rw [before_past]
  apply insertedWidth_append
  rw [Text.width_append]
  omega

/-- The room of what is typed next is made at the end of the room before it. -/
theorem Widens.append_iff {caret : Caret} (sound : caret.line.Sound) {t u v : Tiling}
    (known : caret.line.state = some t) {text : Text} (widens : caret.Widens text t u)
    (more : Text) :
    (caret.past text).Widens more u v ↔ caret.Widens (text ++ more) t v := by
  have column := column_past widens.width_lt
  have fits := fits_insertedWidth sound known widens.width_lt
  have twice : u.widenTokens (caret.position.column + insertedWidth text) (insertedWidth more) =
      t.widenTokens caret.position.column (insertedWidth text + insertedWidth more) :=
    Tiling.widenTokens_widenTokens (column_le_length sound known) fits widens.tokens
  have reaches : (caret.past text).line.text.width + more.width =
      caret.line.text.width + (text ++ more).width := by
    show (caret.typed text).text.width + more.width = _
    rw [width_typed, Text.width_append, Nat.add_assoc]
  have width : v.length.toNat = caret.line.text.width + (text ++ more).width →
      insertedWidth (text ++ more) = insertedWidth text + insertedWidth more := by
    intro length
    have bound := v.length.toNat_lt_size
    exact insertedWidth_append (by omega)
  constructor
  · intro later
    have length := later.length.trans reaches
    constructor
    · rw [later.tokens, column, twice, width length]
    · exact length
  · intro whole
    constructor
    · rw [whole.tokens, column, twice, width whole.length]
    · exact whole.length.trans reaches.symm

theorem Widens.exists_first {caret : Caret} (sound : caret.line.Sound) {t v : Tiling}
    (known : caret.line.state = some t) {text more : Text}
    (whole : caret.Widens (text ++ more) t v) : ∃ u, caret.Widens text t u := by
  have room := whole.width_lt
  rw [Text.width_append] at room
  apply exists_widens sound known (by omega)
  intro bare
  have tokens : v.tokens = Tiling.empty.tokens := by
    rw [whole.tokens, Tiling.isEmpty_iff.mp bare, Tiling.widenTokens_empty]
  have reaches : v.length.toNat = 0 := by
    rw [Tiling.ext tokens]
    rfl
  have length := whole.length
  rw [Text.width_append] at length
  exact Text.eq_nil_of_width_eq_zero (by omega)

theorem typed_past {caret : Caret} (sound : caret.line.Sound) {text : Text}
    (unbroken : '\n' ∉ text) (more : Text) :
    (caret.past text).typed more = caret.typed (text ++ more) := by
  have between : (caret.past text).line.Sound := sound_typed sound unbroken
  apply Line.ext
  · rw [text_typed, text_typed, before_past, after_past, List.append_assoc caret.before]
  · apply Option.ext
    intro v
    rw [state_typed_eq_some_iff between, state_typed_eq_some_iff sound]
    constructor
    · intro found
      rcases found with ⟨u, first, later⟩
      rcases (state_typed_eq_some_iff sound).mp first with ⟨t, known, widens⟩
      exact ⟨t, known, (widens.append_iff sound known more).mp later⟩
    · -- The tiling after the first text is not given here, but the last one leaves room for it.
      intro found
      rcases found with ⟨t, known, whole⟩
      rcases whole.exists_first sound known with ⟨u, widens⟩
      have first := (state_typed_eq_some_iff sound).mpr ⟨t, known, widens⟩
      exact ⟨u, first, (widens.append_iff sound known more).mpr whole⟩

theorem typed_nil {caret : Caret} (sound : caret.line.Sound) : caret.typed [] = caret.line := by
  apply Line.ext
  · rw [text_typed, List.append_nil, before_append_after]
  · apply Option.ext
    intro u
    rw [state_typed_eq_some_iff sound]
    constructor
    · intro found
      rcases found with ⟨t, known, widens⟩
      rw [known]
      exact congrArg some (Tiling.ext (widens.tokens.trans (t.widenTokens_zero _))).symm
    · intro known
      exact ⟨u, known, (u.widenTokens_zero _).symm, sound.covered u known⟩

end Caret

/-!
## The edit
-/

theorem Selection.edited_of_unbroken {caret : Caret} (empty : Sound ⟨caret, caret⟩) {text : Text}
    (unbroken : '\n' ∉ text) (carry : Bool) :
    edited ⟨caret, caret⟩ carry text = [caret.typed text] := by
  have one := Text.lines_of_unbroken unbroken
  unfold edited Caret.typed
  rw [replay_of_joined empty.joined_empty, one, texts_of_one empty one, distribute]
  cases caret.line.state.insert caret.position.column (insertedWidth text) with
  | error cause =>
      rfl
  | ok wider =>
      rfl

namespace Document

theorem edit_insert_of_unbroken {d : Document} (sound : d.Sound)
    (lenient : d.settings.recoverFromErrors = true) {offset : Nat} {caret : Caret}
    (resolved : caret? d.lines offset = some caret) {text : Text} (unbroken : '\n' ∉ text) :
    d.edit (.insert offset text) =
      ⟨{ d with lines := caret.above ++ caret.typed text :: caret.below }, none⟩ := by
  rcases caret?_eq_some_iff.mp resolved with ⟨shape, _, _⟩
  have selected : select? d.lines offset offset = some ⟨caret, caret⟩ :=
    select?_eq_some_iff.mpr ⟨resolved, resolved, Nat.le_refl _⟩
  have empty := sound_of_select? sound selected
  cases change : (Edit.insert offset text).isNoop with
  | true =>
      have nothing : text = [] := (Edit.isNoop_iff.mp change).2
      rw [edit_of_noop selected change, nothing, Caret.typed_nil empty.first, ← shape]
  | false =>
      rw [edit_of_selected selected change]
      apply Outcome.ext
      · show (d.replace ⟨caret, caret⟩ text).document = _
        rw [document_replace, Selection.edited_of_unbroken empty unbroken, splice]
        simp
      · exact error_replace_of_recover lenient _ _

theorem edit_insert_append {d : Document} (sound : d.Sound)
    (lenient : d.settings.recoverFromErrors = true) {offset : Nat} (bound : offset ≤ d.length)
    {text more : Text} (unbroken : '\n' ∉ text) (unbroken' : '\n' ∉ more) :
    (d.edit (.insert offset text)).error = none ∧
      (d.edit (.insert offset text)).document.edit (.insert (offset + text.length) more) =
        d.edit (.insert offset (text ++ more)) := by
  rcases (exists_caret?_iff sound.nonempty).mpr bound with ⟨caret, resolved⟩
  have line : caret.line.Sound := sound.line _ (line_mem_of_caret? resolved)
  rcases caret?_eq_some_iff.mp resolved with ⟨_, _, count⟩
  have first := edit_insert_of_unbroken sound lenient resolved unbroken
  have between : (d.edit (.insert offset text)).document.Sound := sound_edit sound _
  rw [first] at between ⊢
  have behind : caret? (caret.above ++ caret.typed text :: caret.below) (offset + text.length) =
      some (caret.past text) := by
    apply caret?_eq_some_iff.mpr
    refine ⟨rfl, ?_, ?_⟩
    · show caret.before.length + text.length ≤ (caret.typed text).text.length
      rw [Caret.text_typed, List.length_append, List.length_append]
      exact Nat.le_add_right _ _
    · rw [Caret.prior_past, List.length_append, count]
  have whole := edit_insert_of_unbroken sound lenient resolved
    (Text.newline_not_mem_append unbroken unbroken')
  refine ⟨rfl, ?_⟩
  rw [whole, edit_insert_of_unbroken between lenient behind unbroken',
    Caret.typed_past line unbroken]
  rfl

/-!
## Keystrokes

With recovery, typing a text without newlines one character after the other leaves the same
document as inserting it at once, and no step of it is an error.
-/

/-- The insertions that type a text, each character behind the one before it. -/
def keystrokes (offset : Nat) (text : Text) : Script :=
  text.mapIdx fun i c => .insert (offset + i) [c]

theorem keystrokes_cons (offset : Nat) (c : Char) (rest : Text) :
    keystrokes offset (c :: rest) = .insert offset [c] :: keystrokes (offset + 1) rest := by
  rw [keystrokes, List.mapIdx_cons, keystrokes]
  simp only [Nat.add_zero, Nat.add_assoc, Nat.add_comm 1]

theorem after_map_edit {d : Document} {script : Script} (succeeds : (d.run script).error = none) :
    d.after (script.map .edit) = (d.run script).document := by
  induction script generalizing d with
  | nil =>
      rfl
  | cons e rest ih =>
      show (d.edit e).document.after (rest.map .edit) = _
      cases error : (d.edit e).error with
      | none =>
          rw [run_cons_of_none error] at succeeds ⊢
          exact ih succeeds
      | some cause =>
          rw [run_cons_of_some error, error] at succeeds
          cases succeeds

theorem run_keystrokes_eq_edit {d : Document} (sound : d.Sound)
    (lenient : d.settings.recoverFromErrors = true) {offset : Nat} (bound : offset ≤ d.length)
    {text : Text} (unbroken : '\n' ∉ text) :
    d.run (keystrokes offset text) = d.edit (.insert offset text) := by
  induction text generalizing d offset with
  | nil =>
      rcases (exists_select?_iff sound.nonempty).mpr ⟨Nat.le_refl _, bound⟩ with
        ⟨selection, selected⟩
      have nothing : (Edit.insert offset []).isNoop = true := Edit.isNoop_iff.mpr ⟨rfl, rfl⟩
      exact (edit_of_noop selected nothing).symm
  | cons c rest ih =>
      have single : '\n' ∉ [c] :=
        fun member => unbroken (List.mem_cons.mpr (Or.inl (List.mem_singleton.mp member)))
      have later : '\n' ∉ rest := fun member => unbroken (List.mem_cons_of_mem c member)
      rcases edit_insert_append sound lenient bound single later with ⟨succeeds, both⟩
      have settings := settings_edit d (.insert offset [c])
      have longer := length_edit sound (e := .insert offset [c]) (Nat.le_refl _) bound
      have further : offset + 1 ≤ (d.edit (.insert offset [c])).document.length := by
        simp only [Edit.deletedLength, Edit.insertedLength, Edit.insert, List.length_singleton,
          Nat.sub_self, Nat.add_zero] at longer
        exact longer ▸ Nat.succ_le_succ bound
      -- The characters behind the first are inserted at once in what the first one leaves.
      rw [keystrokes_cons, run_cons_of_none succeeds,
        ih (sound_edit sound _) (by rw [settings, lenient]) further later]
      exact both

theorem run_keystrokes {d : Document} (reachable : d.Reachable)
    (lenient : d.settings.recoverFromErrors = true) {offset : Nat} (bound : offset ≤ d.length)
    {text : Text} (unbroken : '\n' ∉ text) :
    (d.edit (.insert offset text)).error = none ∧
      d.run (keystrokes offset text) = d.edit (.insert offset text) ∧
      d.after ((keystrokes offset text).map .edit) = (d.edit (.insert offset text)).document := by
  have sound := reachable.sound
  have whole := run_keystrokes_eq_edit sound lenient bound unbroken
  rcases (exists_caret?_iff sound.nonempty).mpr bound with ⟨caret, resolved⟩
  have succeeds : (d.edit (.insert offset text)).error = none := by
    rw [edit_insert_of_unbroken sound lenient resolved unbroken]
  refine ⟨succeeds, whole, ?_⟩
  rw [← whole] at succeeds ⊢
  exact after_map_edit succeeds

def hairlineFirst : Document :=
  (ofText ['a', 'b'] default).after [.set 0 [⟨0, 5⟩, ⟨1, 7⟩, ⟨2, 8⟩]]

/-- At the beginning of the line it is the hairline that widens, and keeps widening. -/
theorem run_keystrokes_at_hairline :
    let typed := hairlineFirst.after ((keystrokes 0 ['x', '😀', 'y']).map .edit)
    typed = (hairlineFirst.edit (.insert 0 ['x', '😀', 'y'])).document ∧
      (typed.tiling? 0).map Tiling.words = some [4, 5, 5, 7, 6, 8] := by
  have run : hairlineFirst.Reachable := reachable_after (.ofText _ _) _
  have bound : 0 ≤ hairlineFirst.length := Nat.zero_le _
  have unbroken : '\n' ∉ ['x', '😀', 'y'] := by decide
  have law := run_keystrokes run (by decide +kernel) bound unbroken
  exact ⟨law.2.2, by decide +kernel⟩

end Document
end TiledText
