/-
A ring of fixed capacity whose entries are addressed by sequence number. Sequence `s` lives in slot
`s mod capacity`; the retained sequences are those from `head` to `tail`. Appending to a full ring
gives up the head, whose slot the new entry takes, so a sequence is never used twice.

Results:
- `index_lt`: slot numbers stay below the capacity;
- `capacity_add`, `tail_add`, `capacity_evictExpired`, `tail_evictExpired`: what the two changes keep.
-/
namespace Changefeed

/-- an occupied slot; an entry without an expiry stays until it is overwritten -/
structure Slot (α : Type) where
  item : α
  /-- in milliseconds of the wall clock -/
  expiresAt : Option Nat

/-- the slot's entry is expired when the clock shows `now` -/
def Slot.expired {α : Type} (slot : Slot α) (now : Nat) : Bool :=
  match slot.expiresAt with
  | some t => t ≤ now
  | none => false

structure RingBuffer (α : Type) where
  slots : Array (Option (Slot α))
  /-- the oldest retained sequence -/
  head : Int
  /-- the newest sequence, `-1` before the first -/
  tail : Int

namespace RingBuffer

variable {α : Type}

/-- the empty ring with `capacity` slots -/
def empty (capacity : Nat) : RingBuffer α := ⟨Array.replicate capacity none, 0, -1⟩

def capacity (r : RingBuffer α) : Nat := r.slots.size

/-- how many sequences are retained -/
def size (r : RingBuffer α) : Int := r.tail - r.head + 1

/-- the slot of a sequence -/
def index (r : RingBuffer α) (s : Int) : Nat := (s % r.capacity).toNat

/-- what the slot of a sequence holds -/
def slot? (r : RingBuffer α) (s : Int) : Option (Slot α) := (r.slots[r.index s]?).join

/-- appends an entry under the next sequence, giving up the head of a full ring -/
def add (r : RingBuffer α) (item : α) (expiresAt : Option Nat) : RingBuffer α :=
  let tail := r.tail + 1
  let head := if tail - r.capacity = r.head then r.head + 1 else r.head
  ⟨r.slots.setIfInBounds (r.index tail) (some ⟨item, expiresAt⟩), head, tail⟩

/-- the entry at a retained sequence -/
def read (r : RingBuffer α) (s : Int) : Option α :=
  if s < r.head ∨ r.tail < s then none else (r.slot? s).map Slot.item

/-- an empty slot counts as expired -/
def headExpired (r : RingBuffer α) (now : Nat) : Bool :=
  match r.slot? r.head with
  | some slot => slot.expired now
  | none => true

/-- clears the head's slot and moves the head on -/
def dropHead (r : RingBuffer α) : RingBuffer α :=
  ⟨r.slots.setIfInBounds (r.index r.head) none, r.head + 1, r.tail⟩

/-- drops expired entries from the head, at most `n` of them, and counts them -/
def evictUpTo (now : Nat) : Nat → RingBuffer α → RingBuffer α × Nat
  | 0, r => (r, 0)
  | n + 1, r =>
    if r.headExpired now then
      let (r', k) := evictUpTo now n r.dropHead
      (r', k + 1)
    else (r, 0)

/-- drops every expired entry up to the first that is not, and counts them -/
def evictExpired (r : RingBuffer α) (now : Nat) : RingBuffer α × Nat := evictUpTo now r.size.toNat r

@[simp] theorem capacity_empty (n : Nat) : (empty n : RingBuffer α).capacity = n := by
  simp [empty, capacity]

theorem index_lt (r : RingBuffer α) (s : Int) (h : 0 < r.capacity) : r.index s < r.capacity := by
  have h' : (0 : Int) < r.capacity := by exact_mod_cast h
  have h1 := Int.emod_lt_of_pos s h'
  have h2 := Int.emod_nonneg s (by omega : (r.capacity : Int) ≠ 0)
  unfold index
  omega

@[simp] theorem capacity_add (r : RingBuffer α) (item : α) (e : Option Nat) :
    (r.add item e).capacity = r.capacity := by
  simp [add, capacity]

@[simp] theorem tail_add (r : RingBuffer α) (item : α) (e : Option Nat) :
    (r.add item e).tail = r.tail + 1 := rfl

@[simp] theorem capacity_dropHead (r : RingBuffer α) : r.dropHead.capacity = r.capacity := by
  simp [dropHead, capacity]

theorem evictUpTo_keeps (now : Nat) (n : Nat) (r : RingBuffer α) :
    (evictUpTo now n r).1.capacity = r.capacity ∧ (evictUpTo now n r).1.tail = r.tail := by
  induction n generalizing r with
  | zero => exact ⟨rfl, rfl⟩
  | succ n ih =>
    simp only [evictUpTo]
    split
    · have := ih r.dropHead
      simp only [capacity_dropHead] at this
      exact ⟨this.1, this.2⟩
    · exact ⟨rfl, rfl⟩

@[simp] theorem capacity_evictExpired (r : RingBuffer α) (now : Nat) :
    (r.evictExpired now).1.capacity = r.capacity := (evictUpTo_keeps now _ r).1

@[simp] theorem tail_evictExpired (r : RingBuffer α) (now : Nat) :
    (r.evictExpired now).1.tail = r.tail := (evictUpTo_keeps now _ r).2

end RingBuffer

end Changefeed
