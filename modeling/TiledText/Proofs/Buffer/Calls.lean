import TiledText.Buffer.Call
import TiledText.Proofs.Buffer.Insertion

/-!
# Calls never fault

A call to buffers that hold tilings is answered without a fault, and the answer is the
one that the tilings give. What is made is again a buffer that holds a tiling, so the
same is true of any number of calls. Nothing is asked of the arguments except that data
from outside fits into memory.
-/

namespace TiledText

namespace Answer

theorem map_ofExcept (f : β → γ) (result : Except TilingError β) :
    (ofExcept result).map f = ofExcept (result.map f) := by
  cases result with
  | ok b =>
      rfl
  | error error =>
      rfl

theorem made_map (f : β → γ) (reply : Answer β) : (reply.map f).made = reply.made.map f := by
  cases reply <;> rfl

theorem exists_of_map_eq_built {f : β → γ} {reply : Answer β} {c : γ}
    (same : reply.map f = .built c) : ∃ b, reply = .built b ∧ f b = c := by
  cases reply with
  | built b =>
      cases same
      exact ⟨b, rfl, rfl⟩
  | _ =>
      cases same

end Answer

namespace Buffer

open Checked

/-!
## One call
-/

theorem elim_buffer {pool : List Tiling} {place : Nat}
    {reply : Buffer → Checked (Answer Buffer)} {expected : Tiling → Answer Tiling}
    (agree : ∀ t : Tiling, reply t.buffer = .ok ((expected t).map Tiling.buffer)) :
    (pool.map Tiling.buffer)[place]?.elim (.ok .missing) reply =
      .ok ((pool[place]?.elim .missing expected).map Tiling.buffer) := by
  rw [List.getElem?_map]
  cases pool[place]? with
  | none =>
      rfl
  | some t =>
      exact agree t

theorem ofExcept_eq_ok {operation : Checked (Except TilingError Buffer)}
    {result : Except TilingError Tiling} (agree : operation = .ok (result.map Tiling.buffer)) :
    (do
      let outcome ← operation
      return Answer.ofExcept outcome) = .ok ((Answer.ofExcept result).map Tiling.buffer) := by
  rw [agree, ok_bind, Answer.map_ofExcept]
  rfl

theorem ofPacked_eq_ok {packed : Packed} (fits : (Call.decode packed).footprint < addressSize) :
    ofPacked packed = .ok ((Tiling.ofPacked packed).map Tiling.buffer) := by
  cases packed with
  | words words =>
      exact ofWords_eq_ok fits
  | bytes bytes =>
      exact ofBytes_eq_ok fits

theorem answer_eq_ok (pool : List Tiling) (call : Call) (fits : call.footprint < addressSize) :
    answer (pool.map Tiling.buffer) call =
      .ok ((Tiling.answer pool call).map Tiling.buffer) := by
  cases call with
  | decode packed =>
      exact ofExcept_eq_ok (ofPacked_eq_ok fits)
  | encode tokens =>
      exact ofExcept_eq_ok (ofTokens_eq_ok fits)
  | delete place start stop =>
      exact elim_buffer fun t => ofExcept_eq_ok (delete_eq_ok t start stop)
  | deleteBeginning place stop =>
      exact elim_buffer fun t => ofExcept_eq_ok (deleteBeginning_eq_ok t stop)
  | deleteEnding place start =>
      exact elim_buffer fun t => ofExcept_eq_ok (deleteEnding_eq_ok t start)
  | insert place offset width =>
      exact elim_buffer fun t => ofExcept_eq_ok (insert_eq_ok t offset width)
  | append place other =>
      exact elim_buffer fun t => elim_buffer fun u => ofExcept_eq_ok (append_eq_ok t u)
  | length place =>
      apply elim_buffer
      intro t
      rw [length_buffer]
      rfl
  | find place offset =>
      apply elim_buffer
      intro t
      rw [indexAt_buffer]
      rfl
  | token place index =>
      apply elim_buffer
      intro t
      rw [token?_buffer]
      rfl
  | tokens place =>
      apply elim_buffer
      intro t
      rw [tokens_buffer]
      rfl
  | spans place =>
      apply elim_buffer
      intro t
      rw [spans_buffer]
      rfl

/-!
## Any number of calls

Beginning with the empty buffer, no calls ever lead to a fault. The answers are those of
tilings, where arguments that do not fit are refused, and every buffer has its words in pairs
and increasing stops.
-/

theorem run_map_buffer (pool : List Tiling) {calls : List Call}
    (fits : ∀ call ∈ calls, call.footprint < addressSize) :
    run (pool.map Tiling.buffer) calls =
      .ok ((Tiling.run pool calls).map (Answer.map Tiling.buffer)) := by
  induction calls generalizing pool with
  | nil =>
      rfl
  | cons call rest ih =>
      have later := ih (pool ++ (Tiling.answer pool call).made)
        fun other member => fits other (List.mem_cons_of_mem _ member)
      rw [run, answer_eq_ok pool call (fits call (List.mem_cons_self ..)), ok_bind,
        Answer.made_map, ← List.map_append, later]
      rfl

theorem ordered_words_buffer (t : Tiling) :
    t.buffer.words.length % 2 = 0 ∧
      ∀ k first second, t.buffer.words[2 * k]? = some first →
        t.buffer.words[2 * (k + 1)]? = some second → first < second := by
  refine ⟨?_, fun k first second => t.words_increase⟩
  rw [length_words_buffer, Nat.mul_mod_right]

theorem run_eq_ok {calls : List Call} (fits : ∀ call ∈ calls, call.footprint < addressSize) :
    ∃ replies, run [empty] calls = .ok replies ∧
      replies = (Tiling.run [Tiling.empty] calls).map (Answer.map Tiling.buffer) ∧
      ∀ b, b = empty ∨ .built b ∈ replies →
        b.words.length % 2 = 0 ∧
          ∀ k first second, b.words[2 * k]? = some first →
            b.words[2 * (k + 1)]? = some second → first < second := by
  refine ⟨_, run_map_buffer [Tiling.empty] fits, rfl, ?_⟩
  intro b made
  cases made with
  | inl missing =>
      rw [missing]
      exact ordered_words_buffer Tiling.empty
  | inr made =>
      rcases List.mem_map.mp made with ⟨reply, _, same⟩
      rcases Answer.exists_of_map_eq_built same with ⟨t, _, buffer⟩
      rw [← buffer]
      exact ordered_words_buffer t

def mixedCalls : List Call :=
  [.decode (.words [3, 1, 6, 2, 10, 3]), .delete 1 2 7, .insert 2 2 1, .encode [⟨0, 5⟩, ⟨1, 6⟩],
    .append 3 4, .append 4 3, .delete 5 4 9, .insert 5 7 4294967295, .find 5 4,
    .token 5 9223372036854775808]

/-- Bad arguments are refused, and the calls after them go on. -/
theorem run_mixedCalls :
    ∃ replies, run [empty] mixedCalls = .ok replies ∧
      replies =
        [.built ⟨[3, 1, 6, 2, 10, 3]⟩, .built ⟨[2, 1, 5, 3]⟩, .built ⟨[3, 1, 6, 3]⟩,
          .built ⟨[0, 5, 1, 6]⟩, .refused (.unordered 2), .built ⟨[0, 5, 1, 6, 4, 1, 7, 3]⟩,
          .refused (.rangeOutside 4 9 7), .refused (.overflow 7 4294967295), .index 3,
          .token none] ∧
      ∀ b, b = empty ∨ .built b ∈ replies →
        b.words.length % 2 = 0 ∧
          ∀ k first second, b.words[2 * k]? = some first →
            b.words[2 * (k + 1)]? = some second → first < second := by
  have fits : ∀ call ∈ mixedCalls, call.footprint < addressSize := by decide
  rcases run_eq_ok fits with ⟨replies, done, same, ordered⟩
  exact ⟨replies, done, same.trans (by decide +kernel), ordered⟩

end Buffer

end TiledText
