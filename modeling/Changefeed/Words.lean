/-
The operations of a ring and of a container in machine words. Sequences are signed words of 64 bits, clock
readings and counts unsigned ones. Each sum, difference, product and remainder is tested as it is computed:
there is no result (`none`) if it does not fit its word, or if a slot number is not below the capacity. Only
the moment at which a record expires is cut off at the end of the clock instead.

Loops go on for as many sequences as there are to go through, as those of the operations themselves do, and
count along.
-/
import Changefeed.Container
namespace Changefeed

namespace Words

variable {α β : Type}

/-- the number, if it is a signed word -/
def signed (n : Int) : Option Int := (Signed.ofInt? .w64 n).map Signed.val

/-- the number, if it is an unsigned word -/
def unsigned (n : Nat) : Option Nat := (Unsigned.ofNat? .w64 n).map Unsigned.val

/-- the number, or the greatest unsigned word if it is no word -/
def saturated (n : Nat) : Nat := (unsigned n).getD Container.clockMax

/-! ## Rings -/

def capacity (r : RingBuffer α) : Option Int := signed r.capacity

def size (r : RingBuffer α) : Option Int := do
  signed ((← signed (r.tail - r.head)) + 1)

/-- the slot of a sequence; it has to be one of the ring's -/
def index (r : RingBuffer α) (s : Int) : Option Nat := do
  let i ← signed (s % (← capacity r))
  if 0 ≤ i ∧ i < r.capacity then some i.toNat else none

def add (r : RingBuffer α) (item : α) (expiresAt : Option Nat) : Option (RingBuffer α) := do
  let tail ← signed (r.tail + 1)
  let oldest ← signed (tail - (← capacity r))
  let head ← if oldest = r.head then signed (r.head + 1) else some r.head
  let i ← index r tail
  return ⟨r.slots.setIfInBounds i (some ⟨item, expiresAt⟩), head, tail⟩

/-- a sequence is looked up only if it is retained -/
def read (r : RingBuffer α) (s : Int) : Option (Option α) :=
  if s < r.head ∨ r.tail < s then some none
  else do
    let i ← index r s
    return (r.slots[i]?).join.map Slot.item

/-- what a slot holds is expired; an empty slot counts as expired -/
def expiredAt (r : RingBuffer α) (i : Nat) (now : Nat) : Bool :=
  match (r.slots[i]?).join with
  | some slot => slot.expired now
  | none => true

/-- drops expired entries from the head, at most `n` of them, and counts on from `k` -/
def evictUpTo (now : Nat) : Nat → RingBuffer α → Nat → Option (RingBuffer α × Nat)
  | 0, r, k => some (r, k)
  | n + 1, r, k => do
    let i ← index r r.head
    if expiredAt r i now then
      let head ← signed (r.head + 1)
      let k ← unsigned (k + 1)
      evictUpTo now n ⟨r.slots.setIfInBounds i none, head, r.tail⟩ k
    else return (r, k)

def evictExpired (r : RingBuffer α) (now : Nat) : Option (RingBuffer α × Nat) :=
  evictUpTo now r.size.toNat r 0

/-! ## Containers -/

/-- how many records are retained -/
def count (c : Container α) : Option Nat := do
  unsigned (← size c.ring).toNat

def remaining (c : Container α) : Option Nat := do
  let free ← signed ((← capacity c.ring) - (← size c.ring))
  unsigned free.toNat

def expiry (c : Container α) (now : Nat) : Option (Option Nat) :=
  if c.config.expires then do
    let life ← unsigned (c.config.ttlSeconds.toNat * 1000)
    return some (saturated (now + life))
  else some none

def append (c : Container α) (item : α) (now : Nat) : Option (Container α × Int) := do
  let ring ← add c.ring item (← expiry c now)
  return ({ c with ring }, ring.tail)

def cleanup (c : Container α) (now : Nat) : Option (Container α × Nat) :=
  if c.config.expires then do
    let (ring, n) ← evictExpired c.ring now
    return ({ c with ring }, n)
  else some (c, 0)

def readOne (c : Container α) (s : Int) : Option (Except JournalError α) :=
  if c.tail < s then some (.error (.sequenceTooLarge s c.tail))
  else do
    match ← read c.ring s with
    | some a => return .ok a
    | none => return .error (.staleSequence s c.head)

def checkPosition (c : Container α) (s : Int) : Option (Except JournalError Unit) := do
  let next ← signed (c.tail + 1)
  if next < s then return .error (.sequenceTooLarge s c.tail)
  else if s < c.head then return .error (.staleSequence s c.head)
  else return .ok ()

def shouldWait (c : Container α) (s : Int) : Option Bool := do
  let tail ← signed c.tail
  return tail < s

/-- offers the record at sequence `s` -/
def offer (b : Batch α β) (s : Int) (a : α) : Option (Batch α β) := do
  let visited ← unsigned (b.visited + 1)
  let next ← signed (s + 1)
  return { b with kept := if b.keeps a then b.kept.push (s, b.project a) else b.kept, visited, next }

/-- offers up to `n` records from sequence `s` on until the batch is full, and counts on from `k` -/
def offerFrom (r : RingBuffer α) : Nat → Int → Batch α β → Nat → Option (Batch α β × Int × Nat)
  | 0, s, b, k => some (b, s, k)
  | n + 1, s, b, k =>
    if b.full then some (b, s, k)
    else do
      match ← read r s with
      | some a =>
        let b ← offer b s a
        let k ← unsigned (k + 1)
        let s ← signed (s + 1)
        offerFrom r n s b k
      | none =>
        let s ← signed (s + 1)
        offerFrom r n s b k

def readMany (c : Container α) (s : Int) (b : Batch α β) : Option (Except JournalError (Batch α β × Nat)) := do
  match ← checkPosition c s with
  | .error e => return .error e
  | .ok () =>
    let (b, stop, n) ← offerFrom c.ring (c.tail + 1 - s).toNat s b 0
    return .ok ({ b with next := stop }, n)

end Words

end Changefeed
