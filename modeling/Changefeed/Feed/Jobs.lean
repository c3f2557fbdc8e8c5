/-
The jobs of a feed's consumers, advanced one poll at a time.

A reader registers as a waiter at its first poll and keeps the registration until it is done. A poll
makes turns. At each turn the reader takes a watch on its channel and looks at the journal: there may be
something to read, which it reads; or it has caught up, and either holds enough and is done or parks
until it is woken. Two turns are all that a poll can need: one that reads either fills the batch or ends
just behind the tail, where the next turn finds nothing to read.

Results:
- `pollReader_parked`: polling a parked reader that nobody woke changes nothing.
-/
import Changefeed.Feed
namespace Changefeed

/-- where a poll leaves a job -/
inductive Progress (β : Type) where
  | pending
  /-- a reader is done, with its batch or with the reason why it cannot go on -/
  | finished (result : Except JournalError (Batch EventRecord β))
  /-- a watched channel was woken -/
  | notified

/-- where a turn leaves a reader -/
inductive Turn (β : Type) where
  | finished (result : Except JournalError (Batch EventRecord β))
  /-- caught up, and wants more -/
  | parked (watch : Watch) (position : Int) (batch : Batch EventRecord β)
  /-- has read something, and can hold more -/
  | again (position : Int) (batch : Batch EventRecord β)

namespace Feed

variable {β : Type}

/-- one look of a reader at its journal; the reader of a journal that was torn down must not create
it anew -/
def turn (f : Feed β) (waiter : Waiter) (s : Int) (b : Batch EventRecord β) : Feed β × Turn β :=
  let key := waiter.key
  let watch := f.waits.watch waiter
  if f.waits.isCancelled waiter then
    (f, .finished (.error (.destroyed key.ns.object key.part)))
  else
    match f.checkPosition key s with
    | (f, .error e) => (f, .finished (.error e))
    | (f, .ok ()) =>
      match f.shouldWait key s with
      | (f, .error e) => (f, .finished (.error e))
      | (f, .ok true) =>
        if b.satisfied then (f, .finished (.ok b)) else (f, .parked watch s b)
      | (f, .ok false) =>
        match f.readMany key s b with
        | (f, .error e) => (f, .finished (.error e))
        | (f, .ok (b, _)) =>
          if b.full then (f, .finished (.ok b)) else (f, .again b.next b)

/-- up to `n` turns, until one of them is the last -/
def turns (waiter : Waiter) : Nat → Feed β → Int → Batch EventRecord β → Feed β × Turn β
  | 0, f, s, b => (f, .again s b)
  | n + 1, f, s, b =>
    match f.turn waiter s b with
    | (f, .again s b) => turns waiter n f s b
    | last => last

/-- a reader's turns, and what becomes of it: done, it gives its registration up; parked, it stays -/
def advance (f : Feed β) (id : String) (waiter : Waiter) (r : Reader β) : Feed β × Progress β :=
  match turns waiter 2 f r.position r.batch with
  | (f, .finished result) =>
    ({ f with jobs := f.jobs.erase id, waits := f.waits.release waiter }, .finished result)
  | (f, .parked watch position batch) =>
    let r := { r with position, batch, parked := some watch }
    ({ f with jobs := f.jobs.set id (.reader r) }, .pending)
  | (f, .again position batch) =>
    let r := { r with position, batch, parked := some (f.waits.watch waiter) }
    ({ f with jobs := f.jobs.set id (.reader r) }, .pending)

/-- a parked reader goes on only after a wake-up; a new one registers first -/
def pollReader (f : Feed β) (id : String) (r : Reader β) : Feed β × Progress β :=
  match r.parked with
  | some watch =>
    if f.waits.ready watch then f.advance id watch.waiter r else (f, .pending)
  | none =>
    let (waits, waiter) := f.waits.register r.key
    advance { f with waits } id waiter r

/-- polls a job; `none` if there is no job of this name -/
def poll (f : Feed β) (id : String) : Feed β × Option (Progress β) :=
  match f.jobs.get? id with
  | none => (f, none)
  | some (.reader r) =>
    let (f, p) := f.pollReader id r
    (f, some p)
  | some (.watch owner watch _) =>
    if f.waits.ready watch then ({ f with jobs := f.jobs.erase id }, some .notified)
    else ({ f with jobs := f.jobs.set id (.watch owner watch true) }, some .pending)

/-- ends a job before it is done; tells whether there was one -/
def drop (f : Feed β) (id : String) : Feed β × Bool :=
  match f.jobs.get? id with
  | none => (f, false)
  | some (.reader r) =>
    let waits := match r.parked with
      | some watch => f.waits.release watch.waiter
      | none => f.waits
    ({ f with jobs := f.jobs.erase id, waits }, true)
  | some (.watch ..) => ({ f with jobs := f.jobs.erase id }, true)

/-- starts a reader at a sequence; it does nothing before it is polled -/
def startReader (f : Feed β) (id : String) (key : JournalKey) (s : Int)
    (b : Batch EventRecord β) : Feed β :=
  let f := (f.drop id).1
  { f with jobs := f.jobs.set id (.reader ⟨key, s, b, none⟩) }

/-- ends a named waiter's registration and the jobs that watch for it; tells whether there was one -/
def dropWaiter (f : Feed β) (name : String) : Feed β × Bool :=
  match f.waiters.get? name with
  | none => (f, false)
  | some waiter =>
    let orphans := f.jobs.entries.filterMap fun
      | (id, .watch owner _ _) => if owner = name then some id else none
      | (_, .reader _) => none
    ({ f with
        jobs := orphans.foldl Table.erase f.jobs
        waiters := f.waiters.erase name
        waits := f.waits.release waiter }, true)

/-- registers a named waiter under a key -/
def addWaiter (f : Feed β) (name : String) (key : JournalKey) : Feed β × Waiter :=
  let f := (f.dropWaiter name).1
  let (waits, waiter) := f.waits.register key
  ({ f with waits, waiters := f.waiters.set name waiter }, waiter)

/-- starts a job that waits for the next wake-up of a named waiter's channel; tells whether there is
such a waiter -/
def startWatch (f : Feed β) (id name : String) : Feed β × Bool :=
  match f.waiters.get? name with
  | none => (f, false)
  | some waiter =>
    let f := (f.drop id).1
    ({ f with jobs := f.jobs.set id (.watch name (f.waits.watch waiter) false) }, true)

/-- the key of a named waiter was cancelled after it had registered; `none` without such a waiter -/
def waiterCancelled? (f : Feed β) (name : String) : Option Bool :=
  (f.waiters.get? name).map f.waits.isCancelled

/-- the job was woken since its last poll; a job that was never polled is not told -/
def woken (f : Feed β) : Job β → Bool
  | .reader r =>
    match r.parked with
    | some watch => f.waits.ready watch
    | none => false
  | .watch _ watch polled => polled && f.waits.ready watch

/-- the names of the jobs that were woken since their last poll, in ascending order -/
def wokenJobs (f : Feed β) : List String :=
  ((f.jobs.entries.filter fun e => f.woken e.2).map Prod.fst).mergeSort fun a b => a ≤ b

/-- polling a parked reader that nobody woke changes nothing -/
theorem pollReader_parked {f : Feed β} {id : String} {r : Reader β} {watch : Watch}
    (hp : r.parked = some watch) (hr : f.waits.ready watch = false) :
    f.pollReader id r = (f, .pending) := by
  simp [pollReader, hp, hr]

end Feed

end Changefeed
