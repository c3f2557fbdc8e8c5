/-
The journals of one member: for every key at most one live container, and, for those who still hold
one, the containers that bore the key before. A container is identified by its key and its number
among the containers of that key.

Results:
- `live?_discard`: a destroyed journal is no longer found;
- `live?_provide`: asking for a journal gives the live one, whatever the settings asked with.
-/
import Changefeed.Container
import Changefeed.Table
import Changefeed.Generations
namespace Changefeed

/-- the identity of a container: the key it was created under and its number there -/
structure Handle where
  key : JournalKey
  generation : Nat
deriving DecidableEq, Repr, Inhabited

structure Store (α : Type) where
  journals : Table JournalKey (Generations (Container α))
  /-- how many containers were created -/
  created : Nat
  /-- how many containers were destroyed -/
  destroyed : Nat

namespace Store

variable {α : Type}

def empty : Store α := ⟨Table.empty, 0, 0⟩

/-- every container ever created under a key -/
def journal (s : Store α) (key : JournalKey) : Generations (Container α) :=
  (s.journals.get? key).getD Generations.empty

/-- the live container of a key -/
def live? (s : Store α) (key : JournalKey) : Option (Container α) := (s.journal key).opened

/-- the identity of the live container of a key -/
def handle? (s : Store α) (key : JournalKey) : Option Handle :=
  (s.journal key).openId?.map (Handle.mk key)

/-- the container with an identity, live or destroyed -/
def get? (s : Store α) (h : Handle) : Option (Container α) := (s.journal h.key).get? h.generation

/-- changes the container with an identity -/
def modify (s : Store α) (h : Handle) (f : Container α → Container α) : Store α :=
  { s with journals := s.journals.set h.key ((s.journal h.key).modify h.generation f) }

/-- puts a container in the place of the live one of its own key -/
def put (s : Store α) (c : Container α) : Store α :=
  { s with journals := s.journals.set c.key { s.journal c.key with opened := some c } }

/-- the live container of a key; if there is none, one is created with the given settings -/
def provide (s : Store α) (key : JournalKey) (config : StorageConfig) :
    Except JournalError (Store α × Container α) :=
  match s.live? key with
  | some c => .ok (s, c)
  | none =>
    match Container.create key config with
    | .error e => .error e
    | .ok c =>
      .ok ({ s with journals := s.journals.set key ((s.journal key).push c)
                    created := s.created + 1 }, c)

/-- destroys the live container of a key, if there is one -/
def discard (s : Store α) (key : JournalKey) : Store α × Bool :=
  match s.live? key with
  | none => (s, false)
  | some _ =>
    ({ s with journals := s.journals.set key ((s.journal key).close id)
              destroyed := s.destroyed + 1 }, true)

/-- how many containers are live -/
def size (s : Store α) : Nat := s.journals.count fun g => g.opened.isSome

/-- the live containers of a partition, in the order of their namespaces -/
def inPartition (s : Store α) (part : Nat) : List (Container α) :=
  (s.journals.entries.filterMap fun e => if e.1.part = part then e.2.opened else none).mergeSort
    fun a b => a.key.ns.order b.key.ns ≠ .gt

@[simp] theorem journal_set (s : Store α) (key : JournalKey) (g : Generations (Container α)) :
    ({ s with journals := s.journals.set key g } : Store α).journal key = g := by
  simp [journal]

/-- a destroyed journal is no longer found -/
theorem live?_discard (s : Store α) (key : JournalKey) : (s.discard key).1.live? key = none := by
  unfold discard
  cases h : s.live? key with
  | none => simpa using h
  | some c => simp [live?, journal]

/-- the settings asked with do not matter to a live journal -/
theorem live?_provide {s : Store α} {key : JournalKey} {c : Container α} (h : s.live? key = some c)
    (config : StorageConfig) : s.provide key config = .ok (s, c) := by
  simp [provide, h]

end Store

end Changefeed
