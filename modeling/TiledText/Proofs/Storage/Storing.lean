import TiledText.Proofs.Storage.Commands

/-!
# Storing tokens

Tokens are offered for a line in a list or packed, and three questions are asked of them in
turn. Do they decode? Is there such a line? Do they cover it? The first that is answered with
no gives the error, and nothing is changed. If there is none, the line has the tokens, and
nothing else is changed.

The line is a line of the text, and it is covered when the tokens end where its code units do.
In which form the tokens come does not matter, and storage answers like the document.
-/

namespace TiledText

/-!
## Offers
-/

inductive Offer where
  | list (tokens : List Token)
  | packed (data : Packed)
deriving DecidableEq, Repr

namespace Offer

def decoded : Offer → Except TilingError Tiling
  | list tokens => Tiling.ofTokens tokens.toArray
  | packed data => Tiling.ofPacked data

def command (line : Nat) : Offer → Command
  | list tokens => .set line tokens
  | packed data => .restore line data

/-- The second offer is the first in another form. -/
inductive Recodes : Offer → Offer → Prop where
  | words (tokens : List Token) :
      Recodes (list tokens) (packed (.words (Packed.wordsOfTokens tokens)))
  | bytes (words : List UInt32) :
      Recodes (packed (.words words)) (packed (.bytes (Packed.bytesOfWords words)))

variable {one other : Offer}

theorem Recodes.decoded (recodes : one.Recodes other) : other.decoded = one.decoded := by
  cases recodes with
  | words tokens =>
      exact Tiling.ofWords_wordsOfTokens tokens
  | bytes words =>
      exact Tiling.ofBytes_bytesOfWords words

theorem Recodes.footprint (recodes : one.Recodes other) (line : Nat) :
    (other.command line).footprint = (one.command line).footprint := by
  cases recodes with
  | words tokens =>
      show 4 * (Packed.wordsOfTokens tokens).length = 8 * tokens.length
      rw [Packed.length_wordsOfTokens]
      omega
  | bytes words =>
      exact Packed.length_bytesOfWords words

end Offer

namespace Document

variable {d : Document} {line : Nat} {decoded : Except TilingError Tiling} {t : Tiling}

theorem perform_command (d : Document) (line : Nat) (offer : Offer) :
    d.perform (offer.command line) = .ofExcept d (d.storeDecoded line offer.decoded) := by
  cases offer with
  | list tokens =>
      rfl
  | packed data =>
      rfl

/-!
## What is refused
-/

/-- Why decoded tokens are refused for a line. A malformed tiling is refused for any line. -/
inductive Refuses (d : Document) (line : Nat) :
    Except TilingError Tiling → DocumentError → Prop where
  | malformed (cause : TilingError) : Refuses d line (.error cause) (.tiling cause)
  | outside (t : Tiling) (beyond : d.lineCount ≤ line) :
      Refuses d line (.ok t) (.lineOutside line d.lineCount)
  | uncovered (t : Tiling) (text : Text) (there : d.text.lines[line]? = some text)
      (differs : t.length.toNat ≠ text.utf16.length) :
      Refuses d line (.ok t) (.uncovered line text.utf16.length t.length.toNat)

def Accepts (d : Document) (line : Nat) (t : Tiling) : Prop :=
  ∃ text, d.text.lines[line]? = some text ∧ t.length.toNat = text.utf16.length

theorem Sound.lineWidth?_eq (sound : d.Sound) (line : Nat) :
    d.lineWidth? line = d.text.lines[line]?.map fun text => text.utf16.length := by
  rw [sound.lines_text, List.getElem?_map, Option.map_map, lineWidth?]
  congr 1
  funext target
  exact target.text.length_utf16.symm

theorem Sound.lineWidth?_eq_some (sound : d.Sound) {text : Text}
    (there : d.text.lines[line]? = some text) : d.lineWidth? line = some text.utf16.length := by
  rw [sound.lineWidth?_eq, there]
  rfl

theorem lineWidth?_eq_none_iff : d.lineWidth? line = none ↔ d.lineCount ≤ line := by
  rw [lineWidth?, Option.map_eq_none_iff, List.getElem?_eq_none_iff]
  rfl

theorem Sound.lines_eq_none_iff (sound : d.Sound) :
    d.text.lines[line]? = none ↔ d.lineCount ≤ line := by
  rw [← lineWidth?_eq_none_iff, sound.lineWidth?_eq, Option.map_eq_none_iff]

theorem Refuses.storeDecoded (sound : d.Sound) {cause : DocumentError}
    (refused : d.Refuses line decoded cause) : d.storeDecoded line decoded = .error cause := by
  cases refused with
  | malformed inner =>
      rfl
  | outside t beyond =>
      rw [Document.storeDecoded, store, lineWidth?_eq_none_iff.mpr beyond]
  | uncovered t text there differs =>
      rw [Document.storeDecoded, store, sound.lineWidth?_eq_some there]
      exact if_neg differs

theorem Accepts.storeDecoded (sound : d.Sound) (accepted : d.Accepts line t) :
    d.storeDecoded line (.ok t) = .ok (d.setState line (some t)) := by
  rcases accepted with ⟨text, there, covers⟩
  rw [Document.storeDecoded, store, sound.lineWidth?_eq_some there]
  exact if_pos covers

theorem refuses_or_accepts (sound : d.Sound) (line : Nat) (decoded : Except TilingError Tiling) :
    (∃ cause, d.Refuses line decoded cause) ∨ ∃ t, decoded = .ok t ∧ d.Accepts line t := by
  cases decoded with
  | error cause =>
      exact Or.inl ⟨_, .malformed cause⟩
  | ok t =>
      cases there : d.text.lines[line]? with
      | none =>
          exact Or.inl ⟨_, .outside t (sound.lines_eq_none_iff.mp there)⟩
      | some text =>
          by_cases covers : t.length.toNat = text.utf16.length
          · exact Or.inr ⟨t, rfl, text, there, covers⟩
          · exact Or.inl ⟨_, .uncovered t text there covers⟩

/-!
## What becomes of an offer

The tokens are decoded first, then the line is looked for, and then its width is compared.
-/

variable {offer other : Offer}

theorem Refuses.perform (sound : d.Sound) {cause : DocumentError}
    (refused : d.Refuses line offer.decoded cause) :
    d.perform (offer.command line) = ⟨d, some cause⟩ := by
  rw [perform_command, refused.storeDecoded sound]
  rfl

theorem Accepts.perform (sound : d.Sound) (decodes : offer.decoded = .ok t)
    (accepted : d.Accepts line t) :
    d.perform (offer.command line) = ⟨d.setState line (some t), none⟩ := by
  rw [perform_command, decodes, accepted.storeDecoded sound]
  rfl

theorem Accepts.tiling?_setState (sound : d.Sound) (accepted : d.Accepts line t) :
    (d.setState line (some t)).tiling? line = some t := by
  rcases accepted with ⟨text, there, _⟩
  rw [sound.lines_text, List.getElem?_map] at there
  rcases Option.map_eq_some_iff.mp there with ⟨target, found, _⟩
  rw [tiling?, getElem?_setState, if_pos rfl, found]
  rfl

theorem Sound.error_perform_eq_some_iff (sound : d.Sound) {cause : DocumentError} :
    (d.perform (offer.command line)).error = some cause ↔
      d.Refuses line offer.decoded cause := by
  constructor
  · intro failed
    rcases refuses_or_accepts sound line offer.decoded with ⟨_, refused⟩ | ⟨t, decodes, accepted⟩
    · rw [refused.perform sound] at failed
      rw [← Option.some.inj failed]
      exact refused
    · rw [accepted.perform sound decodes] at failed
      cases failed
  · intro refused
    rw [refused.perform sound]

theorem Sound.error_perform_eq_none_iff (sound : d.Sound) :
    (d.perform (offer.command line)).error = none ↔
      ∃ t, offer.decoded = .ok t ∧ d.Accepts line t := by
  constructor
  · intro succeeds
    rcases refuses_or_accepts sound line offer.decoded with ⟨_, refused⟩ | accepted
    · rw [refused.perform sound] at succeeds
      cases succeeds
    · exact accepted
  · rintro ⟨t, decodes, accepted⟩
    rw [accepted.perform sound decodes]

/-- The line has come to have the tiling, and nothing else is changed. -/
structure Stored (d : Document) (line : Nat) (t : Tiling) (after : Document) : Prop where
  tiling : after.tiling? line = some t
  text : after.text = d.text
  settings : after.settings = d.settings
  others : ∀ n, n ≠ line → after.lines[n]? = d.lines[n]?

theorem Accepts.stored (sound : d.Sound) (decodes : offer.decoded = .ok t)
    (accepted : d.Accepts line t) :
    d.Stored line t (d.perform (offer.command line)).document := by
  rw [accepted.perform sound decodes]
  refine ⟨accepted.tiling?_setState sound, ?_, rfl, ?_⟩
  · exact congrArg Text.ofLines (texts_setState d line (some t))
  · intro n other
    exact (getElem?_setState d line n (some t)).trans (if_neg other.symm)

theorem perform_of_recodes (d : Document) (line : Nat) (recodes : offer.Recodes other) :
    d.perform (other.command line) = d.perform (offer.command line) := by
  rw [perform_command, perform_command, recodes.decoded]

end Document

namespace Storage

open Checked

variable {R : Type} [Rope R] {s : Storage R} {d : Document} {line : Nat}
  {decoded : Except TilingError Tiling} {t : Tiling} {offer other : Offer}

theorem perform_command (s : Storage R) (line : Nat) (offer : Offer)
    (fits : (offer.command line).footprint < addressSize) :
    s.perform (offer.command line) = s.storeDecoded line (offer.decoded.map Tiling.buffer) := by
  cases offer with
  | list tokens =>
      show (Buffer.ofTokens tokens >>= _) = _
      rw [Buffer.ofTokens_eq_ok fits, ok_bind]
      rfl
  | packed data =>
      show (Buffer.ofPacked data >>= _) = _
      rw [Buffer.ofPacked_eq_ok fits, ok_bind]
      rfl

theorem perform_of_recodes (s : Storage R) (line : Nat) (recodes : offer.Recodes other)
    (fits : (offer.command line).footprint < addressSize) :
    s.perform (other.command line) = s.perform (offer.command line) := by
  have brought : (other.command line).footprint < addressSize := by
    rw [recodes.footprint line]
    exact fits
  rw [perform_command s line offer fits, perform_command s line other brought, recodes.decoded]

variable [LawfulRope R]

theorem Holds.storeDecoded_of_refuses (holds : s.Holds d) (sound : d.Sound)
    (fits : d.length < addressSize) {cause : DocumentError}
    (refused : d.Refuses line decoded cause) :
    s.storeDecoded line (decoded.map Tiling.buffer) = .ok ⟨s, some cause⟩ := by
  cases refused with
  | malformed inner =>
      rfl
  | outside t beyond =>
      exact store_of_outside holds sound fits (Document.lineWidth?_eq_none_iff.mpr beyond) t
  | uncovered t text there differs =>
      exact store_of_uncovered holds sound fits (sound.lineWidth?_eq_some there) differs

theorem Holds.storeDecoded_of_accepts (holds : s.Holds d) (sound : d.Sound)
    (fits : d.length < addressSize) (accepted : d.Accepts line t) :
    s.storeDecoded line (.ok t.buffer) =
      .ok ⟨{ s with states := s.states.set line (some t.buffer) }, none⟩ := by
  rcases accepted with ⟨text, there, covers⟩
  exact store_of_covered holds sound fits (sound.lineWidth?_eq_some there) covers

theorem Holds.perform_of_refuses (holds : s.Holds d) (sound : d.Sound)
    (fits : d.length + (offer.command line).footprint < addressSize) {cause : DocumentError}
    (refused : d.Refuses line offer.decoded cause) :
    s.perform (offer.command line) = .ok ⟨s, some cause⟩ := by
  rw [perform_command s line offer (Nat.lt_of_add_left_lt fits)]
  exact holds.storeDecoded_of_refuses sound (Nat.lt_of_add_right_lt fits) refused

theorem Holds.perform_of_accepts (holds : s.Holds d) (sound : d.Sound)
    (fits : d.length + (offer.command line).footprint < addressSize)
    (decodes : offer.decoded = .ok t) (accepted : d.Accepts line t) :
    s.perform (offer.command line) =
      .ok ⟨{ s with states := s.states.set line (some t.buffer) }, none⟩ := by
  rw [perform_command s line offer (Nat.lt_of_add_left_lt fits), decodes]
  exact holds.storeDecoded_of_accepts sound (Nat.lt_of_add_right_lt fits) accepted

end Storage

namespace Document

/-!
## Offered tokens

Offered tokens are refused for the reasons that `Refuses` gives, and for no others. Storage
gives the same error or changes the same state, without a fault. Another form of the same
tokens does the same to the document and to storage.
-/

structure TakesOffer (d : Document) (line : Nat) (offer : Offer) : Prop where
  refused : ∀ cause, (d.perform (offer.command line)).error = some cause ↔
    d.Refuses line offer.decoded cause
  accepted : (d.perform (offer.command line)).error = none ↔
    ∃ t, offer.decoded = .ok t ∧ d.Accepts line t
  unchanged : (d.perform (offer.command line)).error ≠ none →
    (d.perform (offer.command line)).document = d
  stored : ∀ t, offer.decoded = .ok t → d.Accepts line t →
    d.Stored line t (d.perform (offer.command line)).document
  refusedStored : ∀ {R : Type} [Rope R] [LawfulRope R] (s : Storage R), s.Holds d →
    d.length + (offer.command line).footprint < Checked.addressSize →
    ∀ cause, d.Refuses line offer.decoded cause →
      s.perform (offer.command line) = .ok ⟨s, some cause⟩
  acceptedStored : ∀ {R : Type} [Rope R] [LawfulRope R] (s : Storage R), s.Holds d →
    d.length + (offer.command line).footprint < Checked.addressSize →
    ∀ t, offer.decoded = .ok t → d.Accepts line t →
      s.perform (offer.command line) =
        .ok ⟨{ s with states := s.states.set line (some t.buffer) }, none⟩
  recoded : ∀ other, offer.Recodes other →
    d.perform (other.command line) = d.perform (offer.command line)
  recodedStored : ∀ other, offer.Recodes other → ∀ {R : Type} [Rope R] (s : Storage R),
    (offer.command line).footprint < Checked.addressSize →
    s.perform (other.command line) = s.perform (offer.command line)

theorem perform_offer {d : Document} (reachable : d.Reachable) (line : Nat) (offer : Offer) :
    d.TakesOffer line offer where
  refused := fun _ => reachable.sound.error_perform_eq_some_iff
  accepted := reachable.sound.error_perform_eq_none_iff
  unchanged := by
    intro fails
    have sound := reachable.sound
    rcases Option.ne_none_iff_exists'.mp fails with ⟨cause, failed⟩
    rw [(sound.error_perform_eq_some_iff.mp failed).perform sound]
  stored := fun _ decodes accepted => accepted.stored reachable.sound decodes
  refusedStored := by
    intro R _ _ s holds fits cause refused
    exact holds.perform_of_refuses reachable.sound fits refused
  acceptedStored := by
    intro R _ _ s holds fits t decodes accepted
    exact holds.perform_of_accepts reachable.sound fits decodes accepted
  recoded := fun _ recodes => d.perform_of_recodes line recodes
  recodedStored := by
    intro other recodes R _ s fits
    exact s.perform_of_recodes line recodes fits

/-- Two lines. The first has a character of two code units, and the last is without characters. -/
def astral : Document :=
  ofText ['a', Char.ofNat 0x1F600, '\n'] default

/--
Three units cover the first line and two do not, no token covers the last one, and beyond it a
malformed list is refused as such.
-/
theorem perform_offer_for_astral :
    (astral.perform (.set 0 [⟨1, 7⟩, ⟨3, 8⟩])).document.pending = [1] ∧
      astral.perform (.restore 0 (.words [1, 7, 3, 8])) =
        astral.perform (.set 0 [⟨1, 7⟩, ⟨3, 8⟩]) ∧
      (astral.perform (.set 0 [⟨2, 7⟩])).error = some (.uncovered 0 3 2) ∧
      (astral.perform (.restore 1 (.bytes []))).error = none ∧
      (astral.perform (.restore 2 (.words [1, 7]))).error = some (.lineOutside 2 2) ∧
      (astral.perform (.set 9 [⟨2, 1⟩, ⟨2, 1⟩])).error = some (.tiling (.unordered 1)) := by
  have reachable : astral.Reachable := .ofText _ _
  have first : astral.text.lines[0]? = some ['a', Char.ofNat 0x1F600] := by decide +kernel
  have last : astral.text.lines[1]? = some [] := by decide +kernel
  have short : astral.Refuses 0 (Offer.list [⟨2, 7⟩]).decoded (.uncovered 0 3 2) :=
    .uncovered ⟨#[⟨2, 7⟩], by decide⟩ _ first (by decide)
  have beyond : astral.Refuses 2 (Offer.packed (.words [1, 7])).decoded (.lineOutside 2 2) :=
    .outside ⟨#[⟨1, 7⟩], by decide⟩ (by decide +kernel)
  have malformed : astral.Refuses 9 (Offer.list [⟨2, 1⟩, ⟨2, 1⟩]).decoded
      (.tiling (.unordered 1)) := .malformed _
  have pair := perform_offer reachable 0 (.list [⟨1, 7⟩, ⟨3, 8⟩])
  have nothing := perform_offer reachable 1 (.packed (.bytes []))
  refine ⟨by decide +kernel, pair.recoded _ (.words _), ?_, ?_, ?_, ?_⟩
  · exact ((perform_offer reachable 0 _).refused _).mpr short
  · exact nothing.accepted.mpr ⟨Tiling.empty, rfl, [], last, rfl⟩
  · exact ((perform_offer reachable 2 _).refused _).mpr beyond
  · exact ((perform_offer reachable 9 _).refused _).mpr malformed

end Document

end TiledText
