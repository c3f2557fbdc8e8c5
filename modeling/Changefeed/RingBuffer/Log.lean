/-
The unbounded log that a ring shows a window of: every entry ever appended, in order, with a count of
those given up from the front.

Results:
- `Log.overdue_eq`: what the log gives up at a moment is what a ring takes for expired then;
- `Log.dropped_le_append`, `Log.dropped_le_expire`: entries are given up for good.
-/
import Changefeed.RingBuffer
namespace Changefeed

/-- all entries ever appended; the first `dropped` of them are no longer retained -/
structure Log (α : Type) where
  entries : List (Slot α)
  dropped : Nat

namespace Log

variable {α : Type}

def empty : Log α := ⟨[], 0⟩

/-- the entries still retained, oldest first -/
def retained (l : Log α) : List (Slot α) := l.entries.drop l.dropped

/-- appends an entry to a log that retains at most `capacity` of them -/
def append (capacity : Nat) (l : Log α) (item : α) (expiresAt : Option Nat) : Log α :=
  let entries := l.entries ++ [⟨item, expiresAt⟩]
  ⟨entries, max l.dropped (entries.length - capacity)⟩

/-- the longest stretch at the front of what is retained whose expiry times have come at `now`; an
entry without an expiry time ends it -/
def overdue (l : Log α) (now : Nat) : List (Slot α) :=
  l.retained.takeWhile fun entry => entry.expiresAt.any fun time => time ≤ now

/-- gives up what is overdue -/
def expire (l : Log α) (now : Nat) : Log α :=
  { l with dropped := l.dropped + (l.overdue now).length }

/-- the entry with number `n`, if it is still retained -/
def get? (l : Log α) (n : Nat) : Option (Slot α) :=
  if n < l.dropped then none else l.entries[n]?

/-- what is overdue is what a ring takes for expired -/
theorem overdue_eq (l : Log α) (now : Nat) : l.overdue now = l.retained.takeWhile (·.expired now) := by
  have hexpired : (fun entry : Slot α => entry.expiresAt.any fun time => time ≤ now) = (·.expired now) := by
    funext entry
    unfold Slot.expired
    cases entry.expiresAt <;> rfl
  rw [overdue, hexpired]

theorem dropped_le_append (capacity : Nat) (l : Log α) (item : α) (e : Option Nat) :
    l.dropped ≤ (l.append capacity item e).dropped := Nat.le_max_left _ _

theorem dropped_le_expire (l : Log α) (now : Nat) : l.dropped ≤ (l.expire now).dropped :=
  Nat.le_add_right _ _

end Log

end Changefeed
