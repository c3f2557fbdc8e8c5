/-
Waiting for a journal to change. Readers of a journal register under its key and share one channel; a
write to the journal wakes all of them. A channel lives as long as one of its waiters does. When the
journal is torn down the channel is cancelled and leaves the key, so that later waiters get a new one.

A watch is taken before a reader looks at the journal. It is ready as soon as the channel was woken
after that, so that no wake-up between the look and the wait is missed.

Results:
- `channel?_wake_of_ne`: waking a key leaves the channels of all other keys as they are.
-/
import Changefeed.Namespace
import Changefeed.Table
import Changefeed.Generations
namespace Changefeed

/-- what the waiters of one key share -/
structure Channel where
  /-- how many waiters hold it -/
  holders : Nat
  /-- how often it was woken -/
  wakeups : Nat
  cancelled : Bool
deriving DecidableEq, Repr

def Channel.wake (c : Channel) : Channel := { c with wakeups := c.wakeups + 1 }

/-- one waiter's registration -/
structure Waiter where
  key : JournalKey
  /-- the number of its channel among those of the key -/
  channel : Nat
deriving DecidableEq, Repr

/-- the wake-ups of a waiter's channel from some moment on -/
structure Watch where
  waiter : Waiter
  /-- the wake-ups before that moment -/
  seen : Nat
deriving DecidableEq, Repr

structure WaitRegistry where
  channels : Table JournalKey (Generations Channel)

namespace WaitRegistry

def empty : WaitRegistry := ⟨Table.empty⟩

/-- every channel a key has had -/
def line (r : WaitRegistry) (key : JournalKey) : Generations Channel :=
  (r.channels.get? key).getD Generations.empty

/-- the channel of a waiter, whether it is still the one of its key or not -/
def channel? (r : WaitRegistry) (w : Waiter) : Option Channel := (r.line w.key).get? w.channel

/-- registers a waiter under a key, on the key's channel if it has one -/
def register (r : WaitRegistry) (key : JournalKey) : WaitRegistry × Waiter :=
  let g := r.line key
  let g' := match g.opened with
    | some c => { g with opened := some { c with holders := c.holders + 1 } }
    | none => g.push ⟨1, 0, false⟩
  (⟨r.channels.set key g'⟩, ⟨key, g.closed.length⟩)

/-- wakes all who wait under a key -/
def wake (r : WaitRegistry) (key : JournalKey) : WaitRegistry :=
  match (r.line key).opened with
  | none => r
  | some c => ⟨r.channels.set key { r.line key with opened := some c.wake }⟩

/-- wakes all who wait under a key, marks their channel cancelled and takes it from the key -/
def cancel (r : WaitRegistry) (key : JournalKey) : WaitRegistry :=
  match (r.line key).opened with
  | none => r
  | some _ =>
    ⟨r.channels.set key
      ((r.line key).close fun c => { c.wake with cancelled := true })⟩

/-- ends a registration; the last waiter of a key's channel takes the channel with it -/
def release (r : WaitRegistry) (w : Waiter) : WaitRegistry :=
  let g := (r.line w.key).modify w.channel fun c => { c with holders := c.holders - 1 }
  let g' := match g.opened with
    | some c => if g.closed.length = w.channel ∧ c.holders = 0 then g.close id else g
    | none => g
  ⟨r.channels.set w.key g'⟩

/-- the key was cancelled after the waiter had registered -/
def isCancelled (r : WaitRegistry) (w : Waiter) : Bool :=
  match r.channel? w with
  | some c => c.cancelled
  | none => false

/-- how often a waiter's channel was woken -/
def wakeups (r : WaitRegistry) (w : Waiter) : Nat :=
  match r.channel? w with
  | some c => c.wakeups
  | none => 0

/-- watches a waiter's channel from now on -/
def watch (r : WaitRegistry) (w : Waiter) : Watch := ⟨w, r.wakeups w⟩

/-- the channel was woken since the watch was taken -/
def ready (r : WaitRegistry) (w : Watch) : Bool := w.seen < r.wakeups w.waiter

/-- how many keys have a channel -/
def size (r : WaitRegistry) : Nat := r.channels.count fun g => g.opened.isSome

@[simp] theorem line_set (r : WaitRegistry) (key : JournalKey) (g : Generations Channel) :
    (⟨r.channels.set key g⟩ : WaitRegistry).line key = g := by
  simp [line]

theorem line_set_of_ne (r : WaitRegistry) {key key' : JournalKey} (h : key' ≠ key)
    (g : Generations Channel) : (⟨r.channels.set key g⟩ : WaitRegistry).line key' = r.line key' := by
  simp [line, Table.get?_set_of_ne _ h]

/-- waking a key leaves the channels of all other keys as they are -/
theorem channel?_wake_of_ne (r : WaitRegistry) {key : JournalKey} {w : Waiter} (h : w.key ≠ key) :
    (r.wake key).channel? w = r.channel? w := by
  unfold wake
  split
  · rfl
  · simp [channel?, line_set_of_ne r h]

end WaitRegistry

end Changefeed
