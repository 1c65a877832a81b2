import TiledText.Json.Reader
import TiledText.Proofs.Json.Scanner
import TiledText.Proofs.Text.Pieces

/-!
# Reading values

The reader accepts the lexemes of values and no other sequences.

In one direction the reader goes through a whole value at once, by induction on
the value. In the other, every state of the reader accounts for the lexemes it
was given, and each step adds its own.
-/

namespace TiledText
namespace Json

/-!
## Parts of a value
-/

def memberLexemes (member : List UInt16 × Value) : List Lexeme :=
  .string member.1 :: .colon :: member.2.lexemes

theorem eachItem_eq (items : List Value) : eachItem items = items.map Value.lexemes := by
  induction items with
  | nil =>
      rfl
  | cons item more ih =>
      rw [eachItem, ih, List.map_cons]

theorem eachMember_eq (members : List (List UInt16 × Value)) :
    eachMember members = members.map memberLexemes := by
  induction members with
  | nil =>
      rfl
  | cons member more ih =>
      rw [eachMember, ih, List.map_cons, memberLexemes]

theorem lexemes_array (items : List Value) :
    (Value.array items).lexemes =
      .beginArray :: ([.comma].intercalate (items.map Value.lexemes) ++ [.endArray]) := by
  rw [Value.lexemes, eachItem_eq]

theorem lexemes_object (members : List (List UInt16 × Value)) :
    (Value.object members).lexemes =
      .beginObject :: ([.comma].intercalate (members.map memberLexemes) ++ [.endObject]) := by
  rw [Value.lexemes, eachMember_eq]

theorem Value.induction {holds : Value → Prop} (null : holds .null)
    (bool : ∀ value, holds (.bool value)) (number : ∀ literal, holds (.number literal))
    (string : ∀ units, holds (.string units))
    (array : ∀ items, (∀ item ∈ items, holds item) → holds (.array items))
    (object : ∀ members, (∀ member ∈ members, holds member.2) → holds (.object members))
    (value : Value) : holds value := by
  refine @Value.rec holds (fun items => ∀ item ∈ items, holds item)
    (fun members => ∀ member ∈ members, holds member.2) (fun member => holds member.2)
    null bool number string array object ?_ ?_ ?_ ?_ ?_ value
  · exact fun item inside => nomatch inside
  · exact fun item more first later => List.forall_mem_cons.mpr ⟨first, later⟩
  · exact fun member inside => nomatch inside
  · exact fun member more first later => List.forall_mem_cons.mpr ⟨first, later⟩
  · exact fun name value holds => holds

namespace Reader

/-!
## Through a value
-/

def finish? (reader : Reader) (lexemes : List Lexeme) : Option Value := do
  (← lexemes.foldlM step? reader).result?

theorem finish?_of_step? {reader next : Reader} {lexeme : Lexeme}
    (step : reader.step? lexeme = some next) (rest : List Lexeme) :
    reader.finish? (lexeme :: rest) = next.finish? rest := by
  rw [finish?, List.foldlM_cons, step]
  rfl

theorem finish?_itemOrEnd (value : Value) (frames : List Frame) (rest : List Lexeme) :
    finish? ⟨.itemOrEnd, frames⟩ (value.lexemes ++ rest) =
      finish? ⟨.value, frames⟩ (value.lexemes ++ rest) := by
  cases value with
  | null =>
      rfl
  | bool value =>
      rfl
  | number literal =>
      rfl
  | string units =>
      rfl
  | array items =>
      rw [lexemes_array]
      rfl
  | object members =>
      rw [lexemes_object]
      rfl

/-- The reader goes through the value, whatever is open around it. -/
def Passes (value : Value) : Prop :=
  ∀ frames rest,
    finish? ⟨.value, frames⟩ (value.lexemes ++ rest) = finish? ⟨.next value, frames⟩ rest

theorem finish?_items {more : List Value} (passes : ∀ item ∈ more, Passes item) (last : Value)
    (done : List Value) (frames : List Frame) (rest : List Lexeme) :
    finish? ⟨.next last, .items done :: frames⟩
        ((more.map Value.lexemes).flatMap ([.comma] ++ ·) ++ .endArray :: rest) =
      finish? ⟨.next (.array (done.reverse ++ last :: more)), frames⟩ rest := by
  induction more generalizing last done with
  | nil =>
      rw [List.map_nil, List.flatMap_nil, List.nil_append, finish?_of_step? rfl, List.reverse_cons]
  | cons item more ih =>
      rw [List.map_cons, List.flatMap_cons, List.append_assoc, List.append_assoc,
        List.singleton_append, finish?_of_step? rfl, passes item (List.mem_cons_self ..),
        ih fun other inside => passes other (List.mem_cons_of_mem _ inside), List.reverse_cons,
        List.append_assoc, List.singleton_append]

theorem finish?_members {more : List (List UInt16 × Value)}
    (passes : ∀ member ∈ more, Passes member.2) (name : List UInt16) (last : Value)
    (done : List (List UInt16 × Value)) (frames : List Frame) (rest : List Lexeme) :
    finish? ⟨.next last, .member done name :: frames⟩
        ((more.map memberLexemes).flatMap ([.comma] ++ ·) ++ .endObject :: rest) =
      finish? ⟨.next (.object (done.reverse ++ (name, last) :: more)), frames⟩ rest := by
  induction more generalizing name last done with
  | nil =>
      rw [List.map_nil, List.flatMap_nil, List.nil_append, finish?_of_step? rfl, List.reverse_cons]
  | cons member more ih =>
      rw [List.map_cons, List.flatMap_cons, List.append_assoc, List.append_assoc,
        List.singleton_append, finish?_of_step? rfl, memberLexemes, List.cons_append,
        finish?_of_step? rfl, List.cons_append, finish?_of_step? rfl,
        passes member (List.mem_cons_self ..),
        ih fun other inside => passes other (List.mem_cons_of_mem _ inside), List.reverse_cons,
        List.append_assoc, List.singleton_append]

theorem passes_array {items : List Value} (passes : ∀ item ∈ items, Passes item) :
    Passes (.array items) := by
  intro frames rest
  rw [lexemes_array, List.cons_append, finish?_of_step? rfl]
  cases items with
  | nil =>
      rfl
  | cons first more =>
      rw [List.map_cons, intercalate_cons_eq, List.append_assoc, List.append_assoc,
        finish?_itemOrEnd, passes first (List.mem_cons_self ..), List.singleton_append,
        finish?_items fun other inside => passes other (List.mem_cons_of_mem _ inside)]
      rfl

theorem passes_object {members : List (List UInt16 × Value)}
    (passes : ∀ member ∈ members, Passes member.2) : Passes (.object members) := by
  intro frames rest
  rw [lexemes_object, List.cons_append, finish?_of_step? rfl]
  cases members with
  | nil =>
      rfl
  | cons first more =>
      rw [List.map_cons, intercalate_cons_eq, List.append_assoc, List.append_assoc, memberLexemes,
        List.cons_append, finish?_of_step? rfl, List.cons_append, finish?_of_step? rfl,
        passes first (List.mem_cons_self ..), List.singleton_append,
        finish?_members fun other inside => passes other (List.mem_cons_of_mem _ inside)]
      rfl

theorem passes (value : Value) : Passes value := by
  induction value using Value.induction with
  | null =>
      exact fun _ _ => rfl
  | bool value =>
      exact fun _ _ => rfl
  | number literal =>
      exact fun _ _ => rfl
  | string units =>
      exact fun _ _ => rfl
  | array items ih =>
      exact passes_array ih
  | object members ih =>
      exact passes_object ih

end Reader

/-!
## What the reader was given

A frame was given what opens it and the complete parts, each with its comma. The
lexemes of the open frames, from the outermost inwards, and of what has been read
since are all the lexemes so far.
-/

def itemsGiven (done : List Value) : List Lexeme :=
  .beginArray :: (done.reverse.map Value.lexemes).flatMap (· ++ [.comma])

def membersGiven (done : List (List UInt16 × Value)) : List Lexeme :=
  .beginObject :: (done.reverse.map memberLexemes).flatMap (· ++ [.comma])

def Frame.given : Frame → List Lexeme
  | .items done => itemsGiven done
  | .member done name => membersGiven done ++ [.string name, .colon]

def Expectation.given : Expectation → List Lexeme
  | .value => []
  | .itemOrEnd => []
  | .name done => membersGiven done
  | .nameOrEnd => membersGiven []
  | .colon done units => membersGiven done ++ [.string units]
  | .next complete => complete.lexemes

theorem itemsGiven_cons (item : Value) (done : List Value) :
    itemsGiven (item :: done) = itemsGiven done ++ (item.lexemes ++ [.comma]) := by
  simp [itemsGiven]

theorem membersGiven_cons (member : List UInt16 × Value) (done : List (List UInt16 × Value)) :
    membersGiven (member :: done) = membersGiven done ++ (memberLexemes member ++ [.comma]) := by
  simp [membersGiven]

theorem lexemes_array_reverse (item : Value) (done : List Value) :
    (Value.array (item :: done).reverse).lexemes =
      itemsGiven done ++ (item.lexemes ++ [.endArray]) := by
  rw [lexemes_array, List.reverse_cons, List.map_append, List.map_singleton, intercalate_around,
    itemsGiven]
  simp

theorem lexemes_object_reverse (member : List UInt16 × Value)
    (done : List (List UInt16 × Value)) :
    (Value.object (member :: done).reverse).lexemes =
      membersGiven done ++ (memberLexemes member ++ [.endObject]) := by
  rw [lexemes_object, List.reverse_cons, List.map_append, List.map_singleton, intercalate_around,
    membersGiven]
  simp

namespace Reader

def given (reader : Reader) : List Lexeme :=
  reader.frames.reverse.flatMap Frame.given ++ reader.expected.given

/-- An array that may end at once has no items yet. -/
def Placed (reader : Reader) : Prop :=
  reader.expected = .itemOrEnd → ∃ outer, reader.frames = .items [] :: outer

/-- What a step does to the account of lexemes. -/
structure Takes (reader : Reader) (lexeme : Lexeme) (next : Reader) : Prop where
  given : next.given = reader.given ++ [lexeme]
  placed : next.Placed

theorem given_cons (expected : Expectation) (frame : Frame) (frames : List Frame) :
    given ⟨expected, frame :: frames⟩ =
      frames.reverse.flatMap Frame.given ++ (frame.given ++ expected.given) := by
  simp [given]

theorem takes_next {value : Value} {lexeme : Lexeme} (single : value.lexemes = [lexeme])
    (frames : List Frame) : Takes ⟨.value, frames⟩ lexeme ⟨.next value, frames⟩ := by
  refine ⟨?_, fun impossible => nomatch impossible⟩
  rw [given, given, Expectation.given, Expectation.given, single, List.append_nil]

theorem takes_of_beginValue? {frames : List Frame} {lexeme : Lexeme} {next : Reader}
    (step : beginValue? frames lexeme = some next) : Takes ⟨.value, frames⟩ lexeme next := by
  cases lexeme with
  | null =>
      cases step
      exact takes_next rfl frames
  | bool value =>
      cases step
      exact takes_next rfl frames
  | number literal =>
      cases step
      exact takes_next rfl frames
  | string units =>
      cases step
      exact takes_next rfl frames
  | beginArray =>
      cases step
      exact ⟨by simp [given, Expectation.given, Frame.given, itemsGiven], fun _ => ⟨frames, rfl⟩⟩
  | beginObject =>
      cases step
      exact ⟨by simp [given, Expectation.given, membersGiven], fun impossible => nomatch impossible⟩
  | _ =>
      cases step

theorem takes_of_continue? {value : Value} {frames : List Frame} {lexeme : Lexeme} {next : Reader}
    (step : continue? value frames lexeme = some next) :
    Takes ⟨.next value, frames⟩ lexeme next := by
  unfold continue? at step
  split at step
  · next done frames =>
      cases step
      refine ⟨?_, fun impossible => nomatch impossible⟩
      rw [given_cons, given_cons, Frame.given, itemsGiven_cons]
      simp [Frame.given, Expectation.given]
  · next done frames =>
      cases step
      refine ⟨?_, fun impossible => nomatch impossible⟩
      rw [given_cons, given, Expectation.given, lexemes_array_reverse]
      simp [Frame.given, Expectation.given]
  · next done name frames =>
      cases step
      refine ⟨?_, fun impossible => nomatch impossible⟩
      rw [given_cons, given, Expectation.given, membersGiven_cons]
      simp [Frame.given, Expectation.given, memberLexemes]
  · next done name frames =>
      cases step
      refine ⟨?_, fun impossible => nomatch impossible⟩
      rw [given_cons, given, Expectation.given, lexemes_object_reverse]
      simp [Frame.given, Expectation.given, memberLexemes]
  · cases step

theorem takes_of_step? {reader next : Reader} {lexeme : Lexeme} (placed : reader.Placed)
    (step : reader.step? lexeme = some next) : Takes reader lexeme next := by
  obtain ⟨expected, frames⟩ := reader
  cases expected with
  | value =>
      exact takes_of_beginValue? step
  | itemOrEnd =>
      -- The innermost frame is the array itself, of which only the bracket was given.
      obtain ⟨outer, rfl⟩ := placed rfl
      by_cases ends : lexeme = .endArray
      · subst ends
        cases step
        refine ⟨?_, fun impossible => nomatch impossible⟩
        simp [given, Frame.given, Expectation.given, lexemes_array, itemsGiven]
      · have first : beginValue? (.items [] :: outer) lexeme = some next := by
          cases lexeme with
          | endArray =>
              exact absurd rfl ends
          | _ =>
              exact step
        exact ⟨(takes_of_beginValue? first).given, (takes_of_beginValue? first).placed⟩
  | name done =>
      cases lexeme with
      | string name =>
          cases step
          exact ⟨by simp [given, Expectation.given], fun impossible => nomatch impossible⟩
      | _ =>
          cases step
  | nameOrEnd =>
      cases lexeme with
      | string name =>
          cases step
          exact ⟨by simp [given, Expectation.given], fun impossible => nomatch impossible⟩
      | endObject =>
          cases step
          refine ⟨?_, fun impossible => nomatch impossible⟩
          simp [given, Expectation.given, lexemes_object, membersGiven]
      | _ =>
          cases step
  | colon done name =>
      cases lexeme with
      | colon =>
          cases step
          refine ⟨?_, fun impossible => nomatch impossible⟩
          rw [given_cons]
          simp [given, Frame.given, Expectation.given]
      | _ =>
          cases step
  | next value =>
      exact takes_of_continue? step

theorem placed_start : start.Placed :=
  fun impossible => nomatch impossible

theorem given_foldlM {reader final : Reader} {lexemes : List Lexeme} (placed : reader.Placed)
    (run : lexemes.foldlM step? reader = some final) : final.given = reader.given ++ lexemes := by
  induction lexemes generalizing reader with
  | nil =>
      rw [← Option.some.inj run, List.append_nil]
  | cons lexeme rest ih =>
      rw [List.foldlM_cons] at run
      obtain ⟨next, step, run⟩ := Option.bind_eq_some_iff.mp run
      have takes := takes_of_step? placed step
      rw [ih takes.placed run, takes.given, List.append_assoc, List.singleton_append]

theorem eq_of_result? {reader : Reader} {value : Value} (result : reader.result? = some value) :
    reader = ⟨.next value, []⟩ := by
  obtain ⟨expected, frames⟩ := reader
  cases expected with
  | next complete =>
      cases frames with
      | nil =>
          cases result
          rfl
      | cons frame more =>
          cases result
  | _ =>
      cases result

end Reader

/-!
## Whole texts
-/

theorem ofLexemes?_eq_some_iff {lexemes : List Lexeme} {value : Value} :
    ofLexemes? lexemes = some value ↔ lexemes = value.lexemes := by
  constructor
  · intro read
    obtain ⟨final, run, result⟩ := Option.bind_eq_some_iff.mp read
    have given := Reader.given_foldlM Reader.placed_start run
    obtain rfl := Reader.eq_of_result? result
    exact given.symm
  · rintro rfl
    have through := Reader.passes value [] []
    rw [List.append_nil] at through
    exact through

theorem parse?_eq_some_iff {text : Text} {value : Value} :
    parse? text = some value ↔ value.WrittenAs text := by
  rw [Value.WrittenAs, ← lexemes?_eq_some_iff]
  constructor
  · intro read
    obtain ⟨lexemes, scan, read⟩ := Option.bind_eq_some_iff.mp read
    rw [scan, ofLexemes?_eq_some_iff.mp read]
  · intro scan
    rw [parse?, scan]
    exact ofLexemes?_eq_some_iff.mpr rfl

end Json
end TiledText
