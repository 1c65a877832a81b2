/-!
# Checked arithmetic

A buffer keeps a tiling in machine words. Its stops and tags have 32 bits, and the
indices into it have 64. On a machine that checks its arithmetic, a sum, a product or a
difference that does not fit is a fault. An access outside the words at hand is a fault on
every machine, and so is a demand for more room than there are addresses. A computation
that is checked stops at its first fault.

Where no sum, product or difference faults, all of them fit, and a machine without the
checks computes the same. `Overflow` is for the one product whose factor comes from outside
and can be any index.
-/

namespace TiledText

inductive Fault where
  /-- An access outside the words. -/
  | outside
  /-- A sum, a product or a capacity that is too large. -/
  | overflow
  /-- A difference below zero. -/
  | underflow
deriving DecidableEq, Repr

abbrev Checked := Except Fault

namespace Checked

/-!
## Words
-/

def add (a b : UInt32) : Checked UInt32 :=
  if a.toNat + b.toNat < UInt32.size then .ok (a + b) else .error .overflow

def sub (a b : UInt32) : Checked UInt32 :=
  if b ≤ a then .ok (a - b) else .error .underflow

/-- The difference, or zero where there is none. It cannot fail. -/
def subOrZero (a b : UInt32) : UInt32 :=
  if b ≤ a then a - b else 0

/-!
## Indices
-/

/-- Indices stay below this bound. -/
def indexSize : Nat :=
  UInt64.size

def addIndex (a b : Nat) : Checked Nat :=
  if a + b < indexSize then .ok (a + b) else .error .overflow

def mulIndex (a b : Nat) : Checked Nat :=
  if a * b < indexSize then .ok (a * b) else .error .overflow

def subIndex (a b : Nat) : Checked Nat :=
  if b ≤ a then .ok (a - b) else .error .underflow

end Checked

/--
What becomes of a product of indices that is too large. It is a fault, or whole turns of the
index size are lost from it.
-/
inductive Overflow where
  | faults
  | wraps
deriving DecidableEq, Repr

def Overflow.mulIndex : Overflow → Nat → Nat → Checked Nat
  | .faults, a, b => Checked.mulIndex a b
  | .wraps, a, b => .ok (a * b % Checked.indexSize)

namespace Checked

/-!
## Memory
-/

/-- What is kept in one place in memory takes fewer bytes than this. -/
def addressSize : Nat :=
  UInt64.size / 2

/-- Asks for room for a number of words, of four bytes each. -/
def room (count : Nat) : Checked Unit :=
  if 4 * count < addressSize then .ok () else .error .overflow

def read (words : List UInt32) (index : Nat) : Checked UInt32 :=
  match words[index]? with
  | some word => .ok word
  | none => .error .outside

def write (words : List UInt32) (index : Nat) (word : UInt32) : Checked (List UInt32) :=
  if index < words.length then .ok (words.set index word) else .error .outside

/-!
## Computations that do not fault
-/

@[simp] theorem ok_bind (a : α) (next : α → Checked β) :
    ((.ok a : Checked α) >>= next) = next a :=
  rfl

@[simp] theorem pure_eq_ok (a : α) : (pure a : Checked α) = .ok a :=
  rfl

theorem add_eq_ok {a b : UInt32} (fits : a.toNat + b.toNat < UInt32.size) :
    add a b = .ok (a + b) :=
  if_pos fits

theorem sub_eq_ok {a b : UInt32} (le : b ≤ a) : sub a b = .ok (a - b) :=
  if_pos le

theorem addIndex_eq_ok {a b : Nat} (fits : a + b < indexSize) : addIndex a b = .ok (a + b) :=
  if_pos fits

theorem mulIndex_eq_ok {a b : Nat} (fits : a * b < indexSize) : mulIndex a b = .ok (a * b) :=
  if_pos fits

theorem subIndex_eq_ok {a b : Nat} (le : b ≤ a) : subIndex a b = .ok (a - b) :=
  if_pos le

theorem room_eq_ok {count : Nat} (fits : 4 * count < addressSize) : room count = .ok () :=
  if_pos fits

theorem read_eq_ok {words : List UInt32} {index : Nat} {word : UInt32}
    (there : words[index]? = some word) : read words index = .ok word := by
  rw [read, there]

theorem write_eq_ok {words : List UInt32} {index : Nat} (inside : index < words.length)
    (word : UInt32) : write words index word = .ok (words.set index word) :=
  if_pos inside

theorem eq_of_addIndex {a b c : Nat} (added : addIndex a b = .ok c) : c = a + b := by
  unfold addIndex at added
  split at added
  · exact (Except.ok.inj added).symm
  · cases added

theorem eq_of_subIndex {a b c : Nat} (subtracted : subIndex a b = .ok c) : c = a - b := by
  unfold subIndex at subtracted
  split at subtracted
  · exact (Except.ok.inj subtracted).symm
  · cases subtracted

/-- The result together with the fact that it is the result. -/
def held (computation : Checked α) : Checked { a : α // computation = .ok a } :=
  match computation with
  | .ok a => .ok ⟨a, rfl⟩
  | .error fault => .error fault

theorem held_eq_ok {computation : Checked α} {a : α} (done : computation = .ok a) :
    computation.held = .ok ⟨a, done⟩ := by
  subst done
  rfl

end Checked

end TiledText
