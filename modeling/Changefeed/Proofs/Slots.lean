/-
What the slots of a ring hold, after any additions and evictions. A slot is occupied exactly if a retained sequence lies in
it, and then by the entry that was added under that sequence; no two retained sequences lie in one slot. So head and tail say
all about the slots, and it is nowhere necessary to look whether a slot is empty.

The operations do look. What they would do at an empty slot never happens: `readOccupied`, `evictOccupied` and `offerEvery`
are reading, evicting and scanning without an answer for an empty slot, and they come to what the operations come to. Neither
do the counts of a container have to be kept from going below zero.

Results:
- `shows_change`, `shows_changed`: what was added is the log that the ring shows a window of;
- `Shows.represents`: the slots of a ring that shows a log;
- `Shows.occupied`: its slots are never found empty;
- `represents_changed`: both hold after any additions and evictions, from an empty ring on.
-/
import Changefeed.Proofs.Scan

namespace Changefeed

namespace RingBuffer

/-- a change of a ring -/
inductive Change (α : Type) where
  | add (item : α) (expiresAt : Option ℕ)
  | evict (now : ℕ)

/-- the entry that a change adds -/
def Change.added? {α : Type} : Change α → Option (Slot α)
  | .add item expiresAt => some ⟨item, expiresAt⟩
  | .evict _ => none

variable {α β : Type}

def change (r : RingBuffer α) : Change α → RingBuffer α
  | .add item expiresAt => r.add item expiresAt
  | .evict now => (r.evictExpired now).1

/-- the ring after a series of changes -/
def changed (r : RingBuffer α) (changes : List (Change α)) : RingBuffer α := changes.foldl change r

/-- the sequence has been written and is not given up -/
def Retains (r : RingBuffer α) (s : Int) : Prop := r.head ≤ s ∧ s ≤ r.tail

/-- the ring has so many slots, and what they hold of the entries that it was given -/
structure Represents (r : RingBuffer α) (room : ℕ) (given : List (Slot α)) : Prop where
  capacity : r.capacity = room
  head_nonneg : 0 ≤ r.head
  head_le : r.head ≤ r.tail + 1
  /-- entries were given the sequences from `0` on, in order -/
  tail : r.tail + 1 = given.length
  fits : r.size ≤ room
  occupied : ∀ i < room, (∃ x, r.slots[i]? = some (some x)) ↔ ∃ s, r.Retains s ∧ s % room = i
  apart : ∀ s t, r.Retains s → r.Retains t → s % room = t % room → s = t
  holds : ∀ s, r.Retains s → ∃ x, given[s.toNat]? = some x ∧ r.slots[(s % room).toNat]? = some (some x)

/-! ## Operations that know no empty slot -/

/-- reading, without an answer for an empty slot -/
def readOccupied (r : RingBuffer α) (s : Int) : Option (Option α) :=
  if s < r.head ∨ r.tail < s then some none else (r.slot? s).map fun slot => some slot.item

/-- dropping expired entries from the head, without an answer for an empty slot -/
def evictOccupied (now : ℕ) : ℕ → RingBuffer α → Option (RingBuffer α × ℕ)
  | 0, r => some (r, 0)
  | n + 1, r =>
    match r.slot? r.head with
    | none => none
    | some slot =>
      if slot.expired now then (evictOccupied now n r.dropHead).map fun (r', k) => (r', k + 1) else some (r, 0)

/-- offering records to a batch, without an answer for a sequence that gives none -/
def offerEvery (r : RingBuffer α) : ℕ → Int → Batch α β → Option (Batch α β × Int)
  | 0, s, b => some (b, s)
  | n + 1, s, b =>
    if b.full then some (b, s)
    else match r.read s with
      | none => none
      | some a => offerEvery r n (s + 1) (b.offer s a)

/-- no operation meets an empty slot, and a count is never below zero -/
structure Occupied (r : RingBuffer α) : Prop where
  reads : ∀ s, r.Retains s → ∃ a, r.read s = some a
  read : ∀ s, r.readOccupied s = some (r.read s)
  evict : ∀ now, evictOccupied now r.size.toNat r = some (r.evictExpired now)
  /-- a scan goes from its position to the tail -/
  scan : ∀ (c : Container α) (s : Int), c.ring = r → c.checkPosition s = .ok () → ∀ {β : Type} (b : Batch α β),
    offerEvery r (c.tail + 1 - s).toNat s b = some (Container.offerFrom r (c.tail + 1 - s).toNat s b)
  size : ∀ c : Container α, c.ring = r → (c.size : Int) = r.size
  remaining : ∀ c : Container α, c.ring = r → (c.remaining : Int) = r.capacity - r.size

/-! ## Changes -/

/-- the entries that a series of changes adds -/
def added (changes : List (Change α)) : List (Slot α) := changes.filterMap Change.added?

/-- a change of a ring appends what it adds to the log, and gives up entries from the front of it -/
theorem shows_change {r : RingBuffer α} {l : Log α} (h : r.Shows l) (c : Change α) :
    ∃ dropped, (r.change c).Shows ⟨l.entries ++ added [c], dropped⟩ := by
  cases c with
  | add item expiresAt => exact ⟨_, shows_add h item expiresAt⟩
  | evict now =>
    have hnone : l.entries ++ added [Change.evict now] = l.entries := List.append_nil _
    rw [hnone]
    exact ⟨_, (shows_evictExpired h now).1⟩

theorem shows_changed {r : RingBuffer α} {l : Log α} (h : r.Shows l) (changes : List (Change α)) :
    ∃ dropped, (r.changed changes).Shows ⟨l.entries ++ added changes, dropped⟩ := by
  induction changes generalizing r l with
  | nil =>
    have hnone : l.entries ++ added ([] : List (Change α)) = l.entries := List.append_nil _
    rw [hnone]
    exact ⟨l.dropped, h⟩
  | cons c changes ih =>
    obtain ⟨dropped, hc⟩ := shows_change h c
    have hall : l.entries ++ added (c :: changes) = (l.entries ++ added [c]) ++ added changes := by
      rw [List.append_assoc, added, added, added, ← List.filterMap_append]
      rfl
    rw [hall]
    exact ih hc

@[simp] theorem capacity_changed (r : RingBuffer α) (changes : List (Change α)) :
    (r.changed changes).capacity = r.capacity := by
  induction changes generalizing r with
  | nil => rfl
  | cons c changes ih =>
    have hc : (r.change c).capacity = r.capacity := by
      cases c with
      | add item expiresAt => exact capacity_add r item expiresAt
      | evict now => exact capacity_evictExpired r now
    exact (ih _).trans hc

/-! ## The slots of a ring that shows a log -/

section Shows

variable {r : RingBuffer α} {l : Log α}

/-- a retained sequence numbers an entry that the log retains -/
theorem Shows.retains_iff (h : r.Shows l) {s : Int} :
    r.Retains s ↔ ∃ n : ℕ, s = n ∧ l.dropped ≤ n ∧ n < l.entries.length := by
  have hhead := h.head
  have htail := h.tail
  unfold Retains
  constructor
  · rintro ⟨hs, hs'⟩
    exact ⟨s.toNat, by omega, by omega, by omega⟩
  · rintro ⟨n, rfl, hn, hn'⟩
    omega

/-- an entry that is retained lies in the slot of its sequence -/
theorem Shows.slots (h : r.Shows l) {n : ℕ} (hn : l.dropped ≤ n) (hn' : n < l.entries.length) :
    r.slots[n % r.capacity]? = some (some l.entries[n]) := by
  have hslot := h.slot n hn hn'
  rw [slot?_natCast, List.getElem?_eq_getElem hn'] at hslot
  exact Option.join_eq_some_iff.1 hslot

theorem Shows.represents (h : r.Shows l) : r.Represents r.capacity l.entries := by
  have hhead := h.head
  have htail := h.tail
  have hdropped := h.dropped_le
  have hfits := h.fits
  refine ⟨rfl, by omega, by omega, by omega, ?_, ?_, ?_, ?_⟩
  · rw [h.size]
    omega
  · intro i hi
    constructor
    · rintro ⟨x, hx⟩
      by_contra hno
      have hvacant := h.vacant i hi fun n hn hn' heq =>
        hno ⟨n, h.retains_iff.2 ⟨n, rfl, hn, hn'⟩, by exact_mod_cast heq⟩
      rw [hx] at hvacant
      cases hvacant
    · rintro ⟨s, hs, hi⟩
      obtain ⟨n, rfl, hn, hn'⟩ := h.retains_iff.1 hs
      obtain rfl : n % r.capacity = i := by exact_mod_cast hi
      exact ⟨_, h.slots hn hn'⟩
  · intro s t hs ht heq
    obtain ⟨m, rfl, hm, hm'⟩ := h.retains_iff.1 hs
    obtain ⟨n, rfl, hn, hn'⟩ := h.retains_iff.1 ht
    have heq : m % r.capacity = n % r.capacity := by exact_mod_cast heq
    rcases Nat.lt_trichotomy m n with hlt | rfl | hlt
    · exact absurd heq (mod_ne_of_lt hlt (by omega))
    · rfl
    · exact absurd heq.symm (mod_ne_of_lt hlt (by omega))
  · intro s hs
    obtain ⟨n, rfl, hn, hn'⟩ := h.retains_iff.1 hs
    have hindex : ((n : Int) % r.capacity).toNat = n % r.capacity := index_natCast r n
    refine ⟨l.entries[n], ?_, ?_⟩
    · rw [Int.toNat_natCast, List.getElem?_eq_getElem hn']
    · rw [hindex]
      exact h.slots hn hn'

/-! ## No empty slot is met -/

theorem Shows.slot?_of_retains (h : r.Shows l) {s : Int} (hs : r.Retains s) : ∃ x, r.slot? s = some x := by
  obtain ⟨n, rfl, hn, hn'⟩ := h.retains_iff.1 hs
  exact ⟨l.entries[n], (h.slot n hn hn').trans (List.getElem?_eq_getElem hn')⟩

theorem Shows.read_of_retains (h : r.Shows l) {s : Int} (hs : r.Retains s) : ∃ a, r.read s = some a := by
  obtain ⟨x, hx⟩ := h.slot?_of_retains hs
  obtain ⟨hhead, htail⟩ := hs
  exact ⟨x.item, by rw [RingBuffer.read, if_neg (by omega), hx, Option.map_some]⟩

theorem Shows.readOccupied (h : r.Shows l) (s : Int) : r.readOccupied s = some (r.read s) := by
  unfold RingBuffer.readOccupied RingBuffer.read
  by_cases hs : s < r.head ∨ r.tail < s
  · rw [if_pos hs, if_pos hs]
  · obtain ⟨x, hx⟩ := h.slot?_of_retains (s := s) ⟨by omega, by omega⟩
    rw [if_neg hs, if_neg hs, hx, Option.map_some, Option.map_some]

/-- as long as there are entries the head has one -/
theorem Shows.evictOccupied (h : r.Shows l) (now : ℕ) {n : ℕ} (hn : n = l.entries.length - l.dropped) :
    evictOccupied now n r = some (evictUpTo now n r) := by
  induction n generalizing r l with
  | zero => rfl
  | succ n ih =>
    have hlt : l.dropped < l.entries.length := by omega
    obtain ⟨x, hx⟩ := h.slot?_of_retains (h.retains_iff.2 ⟨l.dropped, h.head, le_rfl, hlt⟩)
    have hexpired : r.headExpired now = x.expired now := by rw [headExpired, hx]
    have hrest := ih (shows_dropHead h hlt) (show n = l.entries.length - (l.dropped + 1) by omega)
    rw [RingBuffer.evictOccupied, evictUpTo, hx, hexpired]
    cases hexp : x.expired now with
    | false => simp [hexp]
    | true => simp [hexp, hrest]

/-- a scan that does not go beyond the tail finds a record under every sequence -/
theorem Shows.offerEvery (h : r.Shows l) {n : ℕ} {s : Int} (hs : r.head ≤ s) (hn : s + n ≤ r.tail + 1)
    (b : Batch α β) : offerEvery r n s b = some (Container.offerFrom r n s b) := by
  induction n generalizing s b with
  | zero => rfl
  | succ n ih =>
    obtain ⟨a, ha⟩ := h.read_of_retains (s := s) ⟨hs, by omega⟩
    rw [RingBuffer.offerEvery, Container.offerFrom, ha]
    cases b.full with
    | true => rfl
    | false => exact ih (by omega) (by omega) (b.offer s a)

theorem Shows.occupied (h : r.Shows l) : r.Occupied := by
  have hfits := h.represents.fits
  have hhead := h.represents.head_le
  refine ⟨fun s hs => h.read_of_retains hs, h.readOccupied, ?_, ?_, ?_, ?_⟩
  · intro now
    exact h.evictOccupied now (by rw [h.size, Int.toNat_natCast])
  · rintro c s rfl hpos β b
    obtain ⟨hs, hs'⟩ := Container.checkPosition_ok_iff.1 hpos
    exact h.offerEvery hs (by unfold Container.tail at hs' ⊢; omega) b
  · rintro c rfl
    unfold Container.size RingBuffer.size
    omega
  · rintro c rfl
    unfold Container.remaining
    omega

end Shows

/-! ## From an empty ring on -/

/-- **Head and tail say all about the slots.** After any additions and evictions in any order, in a ring with room: a slot
is occupied exactly if a retained sequence lies in it, which is the only one there, and holds what was added under that
sequence; and no operation ever meets an empty slot. -/
theorem represents_changed {n : ℕ} (hroom : 0 < n) (changes : List (Change α)) :
    ((empty n).changed changes).Represents n (added changes) ∧ ((empty n).changed changes).Occupied := by
  obtain ⟨dropped, hshows⟩ := shows_changed (shows_empty hroom) changes
  have hcapacity : ((empty n).changed changes : RingBuffer α).capacity = n := by simp
  have hrepresents := hshows.represents
  rw [hcapacity] at hrepresents
  exact ⟨hrepresents, hshows.occupied⟩

/-- the third entry takes the slot of the first, and the second expires -/
def wornChanges : List (Change Char) := [.add 'a' (some 9), .add 'b' (some 6), .add 'c' none, .evict 7]

theorem represents_changed_worn :
    let r := (empty 2).changed wornChanges
    0 < 2 ∧ r.slots.toList.map (Option.map Slot.item) = [some 'c', none] ∧ r.head = 2 ∧ r.tail = 2 ∧
      (added wornChanges).map Slot.item = ['a', 'b', 'c'] ∧ r.Represents 2 (added wornChanges) ∧ r.Occupied := by
  intro r
  obtain ⟨hrepresents, hoccupied⟩ := represents_changed (n := 2) (by decide) wornChanges
  exact ⟨by decide, by decide, by decide, by decide, by decide, hrepresents, hoccupied⟩

end RingBuffer

end Changefeed
