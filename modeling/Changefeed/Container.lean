/-
The journal of one partition: a ring of records under increasing sequences, with the settings it was
created with and the key that its readers wait under.

Sequences fall into four ranges: before the head (no longer retained), from head to tail (readable),
just behind the tail (the next to be written; a reader can wait for it), and beyond.

Results:
- `readMany_next`: a scan that does not fill the batch ends just behind the tail;
- `readMany_error_iff`: a scan is refused exactly where the position is.
-/
import Changefeed.RingBuffer
import Changefeed.Batch
import Changefeed.Config
import Changefeed.Namespace
import Changefeed.Wire.Integer
namespace Changefeed

structure Container (α : Type) where
  key : JournalKey
  config : StorageConfig
  ring : RingBuffer α

namespace Container

variable {α β : Type}

/-- clock readings, and so expiry times, end here -/
def clockMax : Nat := Width.w64.count - 1

/-- an empty container; it needs room -/
def create (key : JournalKey) (config : StorageConfig) : Except JournalError (Container α) :=
  if config.capacity = 0 then
    .error (.invalidConfig ("journal container " ++ key.ns.text ++ " partition " ++
      toString key.part ++ " needs a positive capacity"))
  else .ok ⟨key, config, RingBuffer.empty config.capacity.toNat⟩

def head (c : Container α) : Int := c.ring.head

def tail (c : Container α) : Int := c.ring.tail

/-- how many records are retained -/
def size (c : Container α) : Nat := c.ring.size.toNat

/-- how many records can be added before the oldest one is given up -/
def remaining (c : Container α) : Nat := ((c.ring.capacity : Int) - c.ring.size).toNat

/-- when a record added now expires -/
def expiry (c : Container α) (now : Nat) : Option Nat :=
  if c.config.expires then some (min clockMax (now + c.config.ttlSeconds.toNat * 1000)) else none

/-- appends a record and gives its sequence -/
def append (c : Container α) (item : α) (now : Nat) : Container α × Int :=
  let ring := c.ring.add item (c.expiry now)
  ({ c with ring }, ring.tail)

/-- the record at a sequence -/
def readOne (c : Container α) (s : Int) : Except JournalError α :=
  if c.tail < s then .error (.sequenceTooLarge s c.tail)
  else match c.ring.read s with
    | some a => .ok a
    | none => .error (.staleSequence s c.head)

/-- a scan can begin at `s`, or a reader wait for it: it is retained or the next to be written -/
def checkPosition (c : Container α) (s : Int) : Except JournalError Unit :=
  if c.tail + 1 < s then .error (.sequenceTooLarge s c.tail)
  else if s < c.head then .error (.staleSequence s c.head)
  else .ok ()

/-- `s` has not been written yet -/
def shouldWait (c : Container α) (s : Int) : Bool := c.tail < s

/-- offers up to `n` records from sequence `s` on to a batch until it is full; gives the batch and
the sequence it stopped at -/
def offerFrom (r : RingBuffer α) : Nat → Int → Batch α β → Batch α β × Int
  | 0, s, b => (b, s)
  | n + 1, s, b =>
    if b.full then (b, s)
    else match r.read s with
      | some a => offerFrom r n (s + 1) (b.offer s a)
      | none => offerFrom r n (s + 1) b

/-- scans from `s` to the tail or until the batch is full; gives the batch and how many records were
visited -/
def readMany (c : Container α) (s : Int) (b : Batch α β) : Except JournalError (Batch α β × Nat) := do
  c.checkPosition s
  let (b', stop) := offerFrom c.ring (c.tail + 1 - s).toNat s b
  return ({ b' with next := stop }, b'.visited - b.visited)

/-- offers in place, to the batch that is the state; gives the sequence it stopped at, and how many
records were offered, starting the count at `k` -/
def offerInPlace (r : RingBuffer α) : Nat → Int → Nat → StateM (Batch α β) (Int × Nat)
  | 0, s, k => return (s, k)
  | n + 1, s, k => do
    if (← get).full then return (s, k)
    match r.read s with
    | some a =>
      modify fun b => b.offer s a
      offerInPlace r n (s + 1) (k + 1)
    | none => offerInPlace r n (s + 1) k

/-- scans in place, into a batch that stays with its owner whether the position is accepted or not;
gives how many records were visited -/
def readManyInPlace (c : Container α) (s : Int) : ExceptT JournalError (StateM (Batch α β)) Nat := do
  MonadExcept.ofExcept (c.checkPosition s)
  let (stop, k) ← (offerInPlace c.ring (c.tail + 1 - s).toNat s 0 : StateM (Batch α β) _)
  modify fun b => { b with next := stop }
  return k

/-- drops expired records from the head and counts them; none expire without a time to live -/
def cleanup (c : Container α) (now : Nat) : Container α × Nat :=
  if c.config.expires then
    let (ring, n) := c.ring.evictExpired now
    ({ c with ring }, n)
  else (c, 0)

theorem offerFrom_stop (r : RingBuffer α) (n : Nat) (s : Int) (b : Batch α β) :
    (offerFrom r n s b).1.full = false → (offerFrom r n s b).2 = s + n := by
  induction n generalizing s b with
  | zero => simp [offerFrom]
  | succ n ih =>
    intro h
    simp only [offerFrom] at h ⊢
    split
    next hf => simp [hf] at h
    next hf =>
      simp only [hf] at h
      cases hr : r.read s with
      | some a =>
        simp only [hr, Bool.false_eq_true, if_false] at h ⊢
        rw [ih _ _ h]; omega
      | none =>
        simp only [hr, Bool.false_eq_true, if_false] at h ⊢
        rw [ih _ _ h]; omega

/-- a scan that does not fill the batch ends just behind the tail -/
theorem readMany_next {c : Container α} {s : Int} {b b' : Batch α β} {n : Nat}
    (h : c.readMany s b = .ok (b', n)) (hf : b'.full = false) : b'.next = c.tail + 1 := by
  unfold readMany checkPosition at h
  split at h
  · cases h
  · split at h
    · cases h
    · simp only [bind, Except.bind, pure, Except.pure, Except.ok.injEq, Prod.mk.injEq] at h
      obtain ⟨rfl, -⟩ := h
      have := offerFrom_stop c.ring _ s b (by simpa using hf)
      simp only [this]
      omega

/-- a scan is refused exactly where the position is, for the same reason -/
theorem readMany_error_iff {c : Container α} {s : Int} {b : Batch α β} {e : JournalError} :
    c.readMany s b = .error e ↔ c.checkPosition s = .error e := by
  unfold readMany
  cases h : c.checkPosition s <;> simp [bind, Except.bind, pure, Except.pure]

end Container

end Changefeed
