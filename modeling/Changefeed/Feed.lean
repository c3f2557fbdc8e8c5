/-
The event journals of one member: their store, the registry of those who wait for them, the settings
that decide which of them exist, and the jobs of their consumers.

A journal is created by the first operation that needs it, if its namespace has an enabled journal;
once created it is there whatever becomes of the settings. Where there is no journal, writing does
nothing and everything else is refused.

Results:
- `container?_unregistered`: without the store service nothing is created and everything is refused;
- `container?_live`: a journal that is there is found whatever the settings say;
- `write_absent`: a write to a journal that is not there and is not enabled changes nothing.
-/
import Changefeed.Event
import Changefeed.Resolver
import Changefeed.Store
import Changefeed.WaitRegistry
namespace Changefeed

/-- a read that waits until its batch holds enough -/
structure Reader (β : Type) where
  key : JournalKey
  /-- the next sequence to read -/
  position : Int
  batch : Batch EventRecord β
  /-- what it waits for; a reader that has not been polled yet waits for nothing -/
  parked : Option Watch

/-- what a consumer polls -/
inductive Job (β : Type) where
  | reader (reader : Reader β)
  /-- waits for a wake-up of a named waiter's channel -/
  | watch (waiter : String) (watch : Watch) (polled : Bool)

/-- journals whose consumers collect items of type `β` -/
structure Feed (β : Type) where
  resolver : Resolver
  /-- the store service is there -/
  registered : Bool
  store : Store EventRecord
  waits : WaitRegistry
  /-- how many records of each kind were written -/
  written : Table EventKind Nat
  /-- registered waiters by name -/
  waiters : Table String Waiter
  /-- jobs by name -/
  jobs : Table String (Job β)

namespace Feed

variable {β ω : Type}

/-- no journal has been created and nobody waits -/
def init (resolver : Resolver) (registered : Bool) : Feed β :=
  ⟨resolver, registered, Store.empty, WaitRegistry.empty, Table.empty, Table.empty, Table.empty⟩

/-- how many records of a kind were written -/
def writtenOf (f : Feed β) (kind : EventKind) : Nat := (f.written.get? kind).getD 0

/-- the journal at `key`: the one that is there, or else a new one if its namespace has an enabled
journal; `none` if it has not -/
def container? (f : Feed β) (key : JournalKey) :
    Feed β × Except JournalError (Option (Container EventRecord)) :=
  if f.registered = false then (f, .error (.serviceUnavailable storeService))
  else match f.store.live? key with
    | some c => (f, .ok (some c))
    | none =>
      match f.resolver.enabledConfig? key.ns with
      | none => (f, .ok none)
      | some config =>
        match config.split f.resolver.partitions with
        | .error e => (f, .error e)
        | .ok storage =>
          match f.store.provide key storage with
          | .error e => (f, .error e)
          | .ok (store, c) => ({ f with store }, .ok (some c))

/-- the journal at `key`, which has to exist -/
def container (f : Feed β) (key : JournalKey) :
    Feed β × Except JournalError (Container EventRecord) :=
  match f.container? key with
  | (f, .error e) => (f, .error e)
  | (f, .ok none) => (f, .error (.notConfigured key.ns.object))
  | (f, .ok (some c)) => (f, .ok c)

/-- asks something of the journal at `key` -/
def query {γ : Type} (f : Feed β) (key : JournalKey)
    (ask : Container EventRecord → Except JournalError γ) : Feed β × Except JournalError γ :=
  match f.container key with
  | (f, .error e) => (f, .error e)
  | (f, .ok c) => (f, ask c)

/-- records a change: encodes its key and values, appends the record, counts it and wakes the
readers; where there is no journal, nothing of this happens -/
def write (encode : ω → Except WireError Data) (f : Feed β) (key : JournalKey) (now : Nat)
    (change : Change ω ω) : Feed β × Except JournalError Unit :=
  match f.container? key with
  | (f, .error e) => (f, .error e)
  | (f, .ok none) => (f, .ok ())
  | (f, .ok (some c)) =>
    match change.encode encode encode with
    | .error e => (f, .error e.toJournalError)
    | .ok record =>
      ({ f with
          store := f.store.put (c.append record now).1
          written := f.written.set record.kind (f.writtenOf record.kind + 1)
          waits := f.waits.wake c.key }, .ok ())

/-- the sequence of the last record, `-1` before the first -/
def newest (f : Feed β) (key : JournalKey) : Feed β × Except JournalError Int :=
  f.query key fun c => .ok c.tail

/-- the sequence of the oldest retained record -/
def oldest (f : Feed β) (key : JournalKey) : Feed β × Except JournalError Int :=
  f.query key fun c => .ok c.head

/-- the retained range, oldest and newest sequence, as a consumer starts -/
def subscribe (f : Feed β) (key : JournalKey) : Feed β × Except JournalError (Int × Int) :=
  match f.oldest key with
  | (f, .error e) => (f, .error e)
  | (f, .ok oldest) =>
    match f.newest key with
    | (f, .error e) => (f, .error e)
    | (f, .ok newest) => (f, .ok (oldest, newest))

/-- a sequence can be read or waited for -/
def checkPosition (f : Feed β) (key : JournalKey) (s : Int) : Feed β × Except JournalError Unit :=
  f.query key fun c => c.checkPosition s

/-- a sequence has not been written yet -/
def shouldWait (f : Feed β) (key : JournalKey) (s : Int) : Feed β × Except JournalError Bool :=
  f.query key fun c => .ok (c.shouldWait s)

/-- scans from a sequence on into a batch; gives the batch and how many records were visited -/
def readMany {γ : Type} (f : Feed β) (key : JournalKey) (s : Int) (b : Batch EventRecord γ) :
    Feed β × Except JournalError (Batch EventRecord γ × Nat) :=
  f.query key fun c => c.readMany s b

/-- drops the expired records -/
def cleanup (f : Feed β) (key : JournalKey) (now : Nat) : Feed β × Except JournalError Unit :=
  match f.container key with
  | (f, .error e) => (f, .error e)
  | (f, .ok c) => ({ f with store := f.store.put (c.cleanup now).1 }, .ok ())

/-- tears a journal down and cancels those who wait for it; without the store service nothing
happens -/
def destroy (f : Feed β) (key : JournalKey) : Feed β :=
  if f.registered = false then f
  else { f with store := (f.store.discard key).1, waits := f.waits.cancel key }

/-- without the store service nothing is created and everything is refused -/
theorem container?_unregistered {f : Feed β} (h : f.registered = false) (key : JournalKey) :
    f.container? key = (f, .error (.serviceUnavailable storeService)) := by
  simp [container?, h]

/-- a journal that is there is found whatever the settings say -/
theorem container?_live {f : Feed β} (h : f.registered = true) {key : JournalKey}
    {c : Container EventRecord} (hc : f.store.live? key = some c) :
    f.container? key = (f, .ok (some c)) := by
  simp [container?, h, hc]

/-- a write to a journal that is not there and is not enabled changes nothing and succeeds -/
theorem write_absent {f : Feed β} (h : f.registered = true) {key : JournalKey}
    (hl : f.store.live? key = none) (he : f.resolver.enabledConfig? key.ns = none)
    (encode : ω → Except WireError Data) (now : Nat) (change : Change ω ω) :
    f.write encode key now change = (f, .ok ()) := by
  simp [write, container?, h, hl, he]

end Feed

end Changefeed
