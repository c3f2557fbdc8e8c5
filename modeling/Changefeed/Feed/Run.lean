/-
Runs: every way in which a feed changes, one operation at a time, in any order. Operations on journals
come from writers and consumers; the settings, the cluster's version, the number of partitions and the
store service change around them; and the store's containers can be used directly, by whoever holds a
handle, behind the back of those who wait.

Left out is what threads do to one another within an operation, and with it the locks, of which none is
ever found poisoned; the clock, whose readings are handed in; log lines; and the media types of the wire
formats, which nobody asks for.

Results:
- `run_append`, `run_snoc`: a run of two stretches is the run of the second after the first;
- `length_run`: every operation gets one answer.
-/
import Changefeed.Feed.Jobs
namespace Changefeed

/-- an operation; changes are made of values of type `ω`, and batches hold items of type `β` -/
inductive Op (ω β : Type) where
  -- journals
  | write (key : JournalKey) (now : Nat) (change : Change ω ω)
  | newest (key : JournalKey)
  | oldest (key : JournalKey)
  | subscribe (key : JournalKey)
  | checkPosition (key : JournalKey) (sequence : Int)
  | shouldWait (key : JournalKey) (sequence : Int)
  | readMany (key : JournalKey) (sequence : Int) (batch : Batch EventRecord β)
  | cleanup (key : JournalKey) (now : Nat)
  | destroy (key : JournalKey)
  | waitKey (key : JournalKey)
  | hasJournal (ns : Namespace)
  | journalConfig (ns : Namespace)
  | storageConfig (config : JournalConfig)
  | partitionCount
  -- jobs
  | startReader (id : String) (key : JournalKey) (sequence : Int) (batch : Batch EventRecord β)
  | poll (id : String)
  | drop (id : String)
  | addWaiter (name : String) (key : JournalKey)
  | startWatch (id name : String)
  | waiterCancelled (name : String)
  | dropWaiter (name : String)
  | wake (key : JournalKey)
  | wakeContainer (handle : Handle)
  | cancel (key : JournalKey)
  -- surroundings
  | setRegistry (registry : String → Option JournalConfig)
  | setVersion (version : Version)
  | setPartitions (partitions : UInt32)
  | registerStore
  | storeService
  -- the store and its containers
  | find (key : JournalKey)
  | provide (key : JournalKey) (config : StorageConfig)
  | discard (key : JournalKey)
  | inPartition (part : Nat)
  | inspect (handle : Handle)
  | append (handle : Handle) (record : EventRecord) (now : Nat)
  | readOne (handle : Handle) (sequence : Int)
  | checkIn (handle : Handle) (sequence : Int)
  | shouldWaitIn (handle : Handle) (sequence : Int)
  | cleanupIn (handle : Handle) (now : Nat)

/-- what an operation gives -/
inductive Answer (β : Type) where
  | done
  /-- there is nothing of the name or under the handle -/
  | absent
  | flag (b : Bool)
  | number (n : Int)
  | range (oldest newest : Int)
  | key (key : JournalKey)
  | config (config : Option JournalConfig)
  | storage (config : StorageConfig)
  | batch (batch : Batch EventRecord β) (visited : Nat)
  | progress (progress : Progress β)
  | waiter (key : JournalKey) (cancelled : Bool)
  | record (record : EventRecord)
  | container (handle : Handle) (container : Container EventRecord)
  | containers (containers : List (Container EventRecord))

namespace Feed

variable {ω β : Type}

/-- the answer to an operation that can be refused -/
def answer {α : Type} (give : α → Answer β) :
    Feed β × Except JournalError α → Feed β × Except JournalError (Answer β)
  | (f, .ok a) => (f, .ok (give a))
  | (f, .error e) => (f, .error e)

/-- the answer to an operation on the container with a handle, which the operation can change -/
def onHandle (f : Feed β) (h : Handle)
    (act : Container EventRecord → Container EventRecord × Except JournalError (Answer β)) :
    Feed β × Except JournalError (Answer β) :=
  match f.store.get? h with
  | none => (f, .ok .absent)
  | some c =>
    let (c', a) := act c
    ({ f with store := f.store.modify h fun _ => c' }, a)

/-- the live container of a key with its handle -/
def found (f : Feed β) (key : JournalKey) : Answer β :=
  match f.store.handle? key, f.store.live? key with
  | some h, some c => .container h c
  | _, _ => .absent

/-- what an operation changes and what it gives -/
def step (encode : ω → Except WireError Data) (f : Feed β) :
    Op ω β → Feed β × Except JournalError (Answer β)
  | .write key now change => answer (fun _ => .done) (f.write encode key now change)
  | .newest key => answer .number (f.newest key)
  | .oldest key => answer .number (f.oldest key)
  | .subscribe key => answer (fun r => .range r.1 r.2) (f.subscribe key)
  | .checkPosition key s => answer (fun _ => .done) (f.checkPosition key s)
  | .shouldWait key s => answer .flag (f.shouldWait key s)
  | .readMany key s b => answer (fun r => .batch r.1 r.2) (f.readMany key s b)
  | .cleanup key now => answer (fun _ => .done) (f.cleanup key now)
  | .destroy key => (f.destroy key, .ok .done)
  | .waitKey key => (f, .ok (.key key))
  | .hasJournal ns => (f, .ok (.flag (f.resolver.isEnabled ns)))
  | .journalConfig ns => (f, .ok (.config (f.resolver.config? ns)))
  | .storageConfig config => answer .storage (f, config.split f.resolver.partitions)
  | .partitionCount => (f, .ok (.number f.resolver.partitions.toNat))
  | .startReader id key s b => (f.startReader id key s b, .ok .done)
  | .poll id =>
    match f.poll id with
    | (f, some p) => (f, .ok (.progress p))
    | (f, none) => (f, .ok .absent)
  | .drop id =>
    let (f, b) := f.drop id
    (f, .ok (.flag b))
  | .addWaiter name key =>
    let (f, w) := f.addWaiter name key
    (f, .ok (.waiter w.key (f.waits.isCancelled w)))
  | .startWatch id name =>
    match f.startWatch id name with
    | (f, true) => (f, .ok .done)
    | (f, false) => (f, .ok .absent)
  | .waiterCancelled name =>
    match f.waiterCancelled? name with
    | some b => (f, .ok (.flag b))
    | none => (f, .ok .absent)
  | .dropWaiter name =>
    let (f, b) := f.dropWaiter name
    (f, .ok (.flag b))
  | .wake key => ({ f with waits := f.waits.wake key }, .ok .done)
  | .wakeContainer h =>
    match f.store.get? h with
    | none => (f, .ok .absent)
    | some c => ({ f with waits := f.waits.wake c.key }, .ok .done)
  | .cancel key => ({ f with waits := f.waits.cancel key }, .ok .done)
  | .setRegistry registry => ({ f with resolver := { f.resolver with registry } }, .ok .done)
  | .setVersion version => ({ f with resolver := { f.resolver with version } }, .ok .done)
  | .setPartitions partitions =>
    ({ f with resolver := { f.resolver with partitions } }, .ok .done)
  | .registerStore => ({ f with registered := true }, .ok (.flag (!f.registered)))
  | .storeService =>
    (f, if f.registered then .ok .done else .error (.serviceUnavailable Changefeed.storeService))
  | .find key => (f, .ok (f.found key))
  | .provide key config =>
    match f.store.provide key config with
    | .error e => (f, .error e)
    | .ok (store, _) =>
      let f := { f with store }
      (f, .ok (f.found key))
  | .discard key =>
    let (store, b) := f.store.discard key
    ({ f with store }, .ok (.flag b))
  | .inPartition part => (f, .ok (.containers (f.store.inPartition part)))
  | .inspect h => f.onHandle h fun c => (c, .ok (.container h c))
  | .append h record now =>
    f.onHandle h fun c =>
      let (c, s) := c.append record now
      (c, .ok (.number s))
  | .readOne h s => f.onHandle h fun c => (c, (c.readOne s).map .record)
  | .checkIn h s => f.onHandle h fun c => (c, (c.checkPosition s).map fun _ => .done)
  | .shouldWaitIn h s => f.onHandle h fun c => (c, .ok (.flag (c.shouldWait s)))
  | .cleanupIn h now =>
    f.onHandle h fun c =>
      let (c, n) := c.cleanup now
      (c, .ok (.number n))

/-- the feed after a sequence of operations, with their answers -/
def run (encode : ω → Except WireError Data) (f : Feed β) :
    List (Op ω β) → Feed β × List (Except JournalError (Answer β))
  | [] => (f, [])
  | op :: ops =>
    let (f, a) := f.step encode op
    let (f, as) := f.run encode ops
    (f, a :: as)

theorem run_append (encode : ω → Except WireError Data) (f : Feed β) (ops ops' : List (Op ω β)) :
    f.run encode (ops ++ ops') =
      (((f.run encode ops).1.run encode ops').1,
        (f.run encode ops).2 ++ ((f.run encode ops).1.run encode ops').2) := by
  induction ops generalizing f with
  | nil => rfl
  | cons op ops ih => simp [run, ih]

theorem run_snoc (encode : ω → Except WireError Data) (f : Feed β) (ops : List (Op ω β)) (op : Op ω β) :
    (f.run encode (ops ++ [op])).1 = ((f.run encode ops).1.step encode op).1 := by
  rw [run_append]
  rfl

theorem length_run (encode : ω → Except WireError Data) (f : Feed β) (ops : List (Op ω β)) :
    (f.run encode ops).2.length = ops.length := by
  induction ops generalizing f with
  | nil => rfl
  | cons op ops ih => simp [run, ih]

end Feed

end Changefeed
