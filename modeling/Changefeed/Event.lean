/-
Changes of a map's entries. What a change carries is fixed by its kind: an added entry has a new value,
a removed or evicted one an old value, an updated one both. A journal records changes whose key and
values are in wire form.

Results:
- `EventKind.ofId?_id`: a kind is found again by its number;
- `Change.kind_encode`: encoding keeps the kind.
-/
import Changefeed.JournalError
namespace Changefeed

inductive EventKind where
  | added
  | removed
  | updated
  | evicted
deriving DecidableEq, Repr, Inhabited

namespace EventKind

def all : List EventKind := [added, removed, updated, evicted]

/-- the stable number of a kind: one bit each -/
def id : EventKind → Int
  | added => 1
  | removed => 2
  | updated => 4
  | evicted => 8

def ofId? (n : Int) : Option EventKind := all.find? (·.id = n)

/-- the name in reports -/
def label : EventKind → String
  | added => "ADDED"
  | removed => "REMOVED"
  | updated => "UPDATED"
  | evicted => "EVICTED"

/-- the name in documents -/
def name : EventKind → String
  | added => "Added"
  | removed => "Removed"
  | updated => "Updated"
  | evicted => "Evicted"

/-- the position in the list of kinds -/
def position : EventKind → Nat
  | added => 0
  | removed => 1
  | updated => 2
  | evicted => 3

@[simp] theorem ofId?_id (k : EventKind) : ofId? k.id = some k := by cases k <;> decide

end EventKind

/-- the wire form of a key or a value -/
abbrev Data := List UInt8

/-- why a value has no wire form -/
structure WireError where
  reason : String
deriving DecidableEq, Repr

def WireError.message (e : WireError) : String := "wire serialization error: " ++ e.reason

/-- a failed write reports the reason alone -/
def WireError.toJournalError (e : WireError) : JournalError := .serialization e.reason

/-- one change of a map's entry -/
inductive Change (κ ν : Type) where
  | added (key : κ) (new : ν)
  | removed (key : κ) (old : ν)
  | updated (key : κ) (old new : ν)
  | evicted (key : κ) (old : ν)
deriving DecidableEq, Repr

namespace Change

variable {κ ν κ' ν' ε : Type}

def kind : Change κ ν → EventKind
  | added .. => .added
  | removed .. => .removed
  | updated .. => .updated
  | evicted .. => .evicted

def key : Change κ ν → κ
  | added k _ => k
  | removed k _ => k
  | updated k _ _ => k
  | evicted k _ => k

/-- the value before the change -/
def old? : Change κ ν → Option ν
  | added .. => none
  | removed _ v => some v
  | updated _ v _ => some v
  | evicted _ v => some v

/-- the value after the change -/
def new? : Change κ ν → Option ν
  | added _ v => some v
  | removed .. => none
  | updated _ _ v => some v
  | evicted .. => none

/-- converts the parts; of several that fail the first counts, in the order key, old value, new
value -/
def encode (key : κ → Except ε κ') (value : ν → Except ε ν') :
    Change κ ν → Except ε (Change κ' ν')
  | added k v => do return .added (← key k) (← value v)
  | removed k v => do return .removed (← key k) (← value v)
  | updated k v w => do
    let k ← key k
    let v ← value v
    return .updated k v (← value w)
  | evicted k v => do return .evicted (← key k) (← value v)

theorem kind_encode {key : κ → Except ε κ'} {value : ν → Except ε ν'} {c : Change κ ν}
    {d : Change κ' ν'} (h : c.encode key value = .ok d) : d.kind = c.kind := by
  cases c <;> simp only [encode, bind, Except.bind, pure, Except.pure] at h <;>
    (repeat' split at h) <;> simp_all [kind] <;> cases h <;> rfl

end Change

/-- a change as a journal keeps it -/
abbrev EventRecord := Change Data Data

/-- a change as a consumer sees it, with the parts read from their wire form -/
structure MapEvent (κ ν : Type) where
  key : κ
  newValue : Option ν
  oldValue : Option ν
  kind : EventKind
deriving DecidableEq, Repr

/-- an optional part: none stays none, and a part that is there must be readable -/
def readOptional {α β : Type} (read : α → Option β) : Option α → Option (Option β)
  | none => some none
  | some a => (read a).map some

/-- reads the key and the values; every part has to be readable -/
def Change.view? {κ ν κ' ν' : Type} (c : Change κ ν) (key : κ → Option κ') (value : ν → Option ν') :
    Option (MapEvent κ' ν') := do
  let k ← key c.key
  let new ← readOptional value c.new?
  let old ← readOptional value c.old?
  some ⟨k, new, old, c.kind⟩

end Changefeed
