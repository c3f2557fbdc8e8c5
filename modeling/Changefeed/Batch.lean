/-
Batches: what a consumer collects while it scans a journal. Every record it is offered counts as
visited; those that pass its filter are kept, projected, under their sequence.

Results:
- `Batch.keeps_eq`: what is kept is what the filter, if there is one, lets through;
- `Batch.visited_offer`, `Batch.next_offer`: offering a record visits it, kept or not.
-/
import Changefeed.JournalError
namespace Changefeed

structure Batch (α β : Type) where
  /-- a waiting consumer wants at least so many items -/
  minSize : Nat
  /-- a scan ends at so many items -/
  maxSize : Nat
  /-- which records to keep, all of them if there is no filter -/
  filter : Option (α → Bool)
  project : α → β
  /-- the kept items under their sequences -/
  kept : Array (Int × β)
  /-- how many records were offered -/
  visited : Nat
  /-- where a later scan goes on -/
  next : Int

namespace Batch

variable {α β : Type}

/-- an empty batch; it needs room for an item, and for as many as it asks for -/
def fresh (minSize maxSize : Nat) (filter : Option (α → Bool)) (project : α → β) :
    Except JournalError (Batch α β) :=
  if maxSize = 0 then .error (.invalidReadRequest "max_size must be positive")
  else if maxSize < minSize then
    .error (.invalidReadRequest ("min_size " ++ toString minSize ++ " is larger than max_size " ++
      toString maxSize))
  else .ok ⟨minSize, maxSize, filter, project, #[], 0, 0⟩

/-- the record passes the filter -/
def keeps (b : Batch α β) (a : α) : Bool :=
  match b.filter with
  | some p => p a
  | none => true

/-- offers the record at sequence `s` -/
def offer (b : Batch α β) (s : Int) (a : α) : Batch α β :=
  { b with
    kept := if b.keeps a then b.kept.push (s, b.project a) else b.kept
    visited := b.visited + 1
    next := s + 1 }

/-- holds as many items as it may -/
def full (b : Batch α β) : Bool := b.maxSize ≤ b.kept.size

/-- holds as many items as were asked for -/
def satisfied (b : Batch α β) : Bool := b.minSize ≤ b.kept.size

def items (b : Batch α β) : List β := b.kept.toList.map Prod.snd

def sequences (b : Batch α β) : List Int := b.kept.toList.map Prod.fst

/-- the batch in reports: its sizes and its position -/
def describe (b : Batch α β) : String :=
  "ReadResultSet \x7b min_size: " ++ toString b.minSize ++ ", max_size: " ++ toString b.maxSize ++
  ", has_predicate: " ++ toString b.filter.isSome ++ ", len: " ++ toString b.kept.size ++
  ", read_count: " ++ toString b.visited ++ ", next_sequence_to_read: " ++ toString b.next ++
  " \x7d"

/-- without a filter every record is kept -/
theorem keeps_eq (b : Batch α β) : b.keeps = fun a => b.filter.all fun p => p a := by
  funext a
  unfold keeps
  cases b.filter <;> rfl

@[simp] theorem visited_offer (b : Batch α β) (s : Int) (a : α) :
    (b.offer s a).visited = b.visited + 1 := rfl

@[simp] theorem next_offer (b : Batch α β) (s : Int) (a : α) : (b.offer s a).next = s + 1 := rfl

@[simp] theorem full_with_next (b : Batch α β) (s : Int) : { b with next := s }.full = b.full := rfl

end Batch

end Changefeed
