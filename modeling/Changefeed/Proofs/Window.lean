/-
A ring shows a window of an unbounded log. Appending to the ring appends to the log, and what the ring overwrites or
expires is what the log gives up; a sequence keeps its entry for as long as the log retains it.

`RingBuffer.Shows` relates the two. Its `slot` field is the heart: every retained entry lies in the slot of its
sequence. Two retained sequences never share a slot, since they are less than a capacity apart.

Results:
- `shows_add`, `shows_evictExpired`: the two changes of a ring are the two changes of a log;
- `Shows.read`: reading the ring is looking up the log;
- `Container.Records`: the records that a container was given, in order, with `records_append`, `records_cleanup`,
  `Records.read` and `Records.readOne` for its operations.
-/
import Mathlib.Tactic
import Changefeed.RingBuffer.Log
import Changefeed.Container

namespace Changefeed

namespace RingBuffer

variable {α : Type}

/-- the ring holds what the log retains, each entry in the slot of its sequence, and nothing else -/
structure Shows (r : RingBuffer α) (l : Log α) : Prop where
  room : 0 < r.capacity
  head : r.head = l.dropped
  tail : r.tail = (l.entries.length : Int) - 1
  dropped_le : l.dropped ≤ l.entries.length
  fits : l.entries.length ≤ l.dropped + r.capacity
  slot : ∀ n, l.dropped ≤ n → n < l.entries.length → r.slot? n = l.entries[n]?
  vacant : ∀ i, i < r.capacity → (∀ n, l.dropped ≤ n → n < l.entries.length → n % r.capacity ≠ i) →
    r.slots[i]? = some none

theorem index_natCast (r : RingBuffer α) (n : ℕ) : r.index n = n % r.capacity := by
  unfold index
  rw [← Int.natCast_emod, Int.toNat_natCast]

theorem slot?_natCast (r : RingBuffer α) (n : ℕ) : r.slot? n = (r.slots[n % r.capacity]?).join := by
  rw [slot?, index_natCast]

theorem Shows.size {r : RingBuffer α} {l : Log α} (h : r.Shows l) :
    r.size = (l.entries.length - l.dropped : ℕ) := by
  have hd := h.dropped_le
  have hh := h.head
  have ht := h.tail
  unfold RingBuffer.size
  omega

/-- two sequences in one window of the capacity's length lie in different slots -/
theorem mod_ne_of_lt {c m n : ℕ} (hmn : m < n) (hn : n < m + c) : m % c ≠ n % c := by
  intro h
  have hd : c ∣ n - m := Nat.dvd_of_mod_eq_zero (Nat.sub_mod_eq_zero_of_mod_eq h.symm)
  have := Nat.le_of_dvd (by omega) hd
  omega

/-! ## Appending -/

theorem shows_empty {n : ℕ} (h : 0 < n) : (empty n : RingBuffer α).Shows Log.empty := by
  refine ⟨by simpa using h, rfl, rfl, le_rfl, Nat.zero_le _, ?_, ?_⟩
  · intro m _ hm
    simp [Log.empty] at hm
  · intro i hi _
    have hi : i < n := by simpa using hi
    simp [empty, hi]

theorem head_add {r : RingBuffer α} {l : Log α} (h : r.Shows l) (item : α) (e : Option ℕ) :
    (r.add item e).head = (l.append r.capacity item e).dropped := by
  have hh := h.head
  have ht := h.tail
  have hf := h.fits
  have hd := h.dropped_le
  simp only [add, Log.append, List.length_append, List.length_singleton]
  split <;> omega

theorem slot_add_self {r : RingBuffer α} {l : Log α} (h : r.Shows l) (item : α) (e : Option ℕ) :
    (r.add item e).slot? l.entries.length = some ⟨item, e⟩ := by
  have ht : r.tail + 1 = (l.entries.length : Int) := by have := h.tail; omega
  have hlt : l.entries.length % r.capacity < r.slots.size := Nat.mod_lt _ h.room
  rw [slot?_natCast, capacity_add]
  simp only [add, ht, index_natCast]
  rw [Array.getElem?_setIfInBounds_self_of_lt hlt, Option.join_some]

theorem slots_add_of_ne {r : RingBuffer α} {l : Log α} (h : r.Shows l) (item : α) (e : Option ℕ) {i : ℕ}
    (hi : l.entries.length % r.capacity ≠ i) : (r.add item e).slots[i]? = r.slots[i]? := by
  have ht : r.tail + 1 = (l.entries.length : Int) := by have := h.tail; omega
  simp only [add, ht, index_natCast]
  exact Array.getElem?_setIfInBounds_ne hi

/-- appending to the ring is appending to the log -/
theorem shows_add {r : RingBuffer α} {l : Log α} (h : r.Shows l) (item : α) (e : Option ℕ) :
    (r.add item e).Shows (l.append r.capacity item e) := by
  have hr := h.room
  have hd := h.dropped_le
  have hf := h.fits
  have hmax : (l.append r.capacity item e).dropped = max l.dropped (l.entries.length + 1 - r.capacity) := by
    simp [Log.append]
  have hlen : (l.append r.capacity item e).entries.length = l.entries.length + 1 := by simp [Log.append]
  have hent : (l.append r.capacity item e).entries = l.entries ++ [⟨item, e⟩] := rfl
  refine ⟨by simpa using hr, head_add h item e, ?_, ?_, ?_, ?_, ?_⟩
  · have := h.tail
    rw [tail_add, hlen]
    omega
  · rw [hmax, hlen]
    omega
  · rw [hmax, hlen, capacity_add]
    omega
  · intro n h1 h2
    rw [hmax] at h1
    rw [hlen] at h2
    by_cases hn : n = l.entries.length
    · rw [hn, slot_add_self h, hent]
      simp
    · -- an older retained sequence is less than a capacity away from the new one
      have hne : l.entries.length % r.capacity ≠ n % r.capacity :=
        (mod_ne_of_lt (by omega : n < l.entries.length) (by omega)).symm
      have hold := h.slot n (by omega) (by omega)
      rw [slot?_natCast] at hold ⊢
      rw [capacity_add, slots_add_of_ne h item e hne, hold, hent, List.getElem?_append_left (by omega)]
  · intro i hi hno
    rw [capacity_add] at hi
    rw [hmax, hlen, capacity_add] at hno
    have hne : l.entries.length % r.capacity ≠ i := hno l.entries.length (by omega) (by omega)
    rw [slots_add_of_ne h item e hne]
    refine h.vacant i hi fun n h1 h2 => ?_
    by_cases hn : l.entries.length + 1 - r.capacity ≤ n
    · exact hno n (by omega) (by omega)
    · -- the sequence that the append gave up shares the slot of the new one
      have heq : n + r.capacity = l.entries.length := by omega
      rwa [← heq, Nat.add_mod_right] at hne

/-! ## Expiring -/

theorem headExpired_iff {r : RingBuffer α} {l : Log α} (h : r.Shows l) {x : Slot α} (now : ℕ)
    (hx : l.entries[l.dropped]? = some x) : r.headExpired now = x.expired now := by
  have hlt : l.dropped < l.entries.length := (List.getElem?_eq_some_iff.1 hx).1
  have hs := h.slot l.dropped le_rfl hlt
  rw [hx, ← h.head] at hs
  simp [headExpired, hs]

/-- clearing the head of the ring gives up the first retained entry of the log -/
theorem shows_dropHead {r : RingBuffer α} {l : Log α} (h : r.Shows l) (hlt : l.dropped < l.entries.length) :
    r.dropHead.Shows ⟨l.entries, l.dropped + 1⟩ := by
  have hr := h.room
  have hf := h.fits
  have hslots : ∀ i, l.dropped % r.capacity ≠ i → r.dropHead.slots[i]? = r.slots[i]? := by
    intro i hi
    simp only [dropHead, h.head, index_natCast]
    exact Array.getElem?_setIfInBounds_ne hi
  refine ⟨by simpa using hr, ?_, h.tail, hlt, ?_, ?_, ?_⟩
  · simp [dropHead, h.head]
  · rw [capacity_dropHead]
    show l.entries.length ≤ l.dropped + 1 + r.capacity
    omega
  · intro n h1 h2
    have h1 : l.dropped + 1 ≤ n := h1
    have h2 : n < l.entries.length := h2
    have hne : l.dropped % r.capacity ≠ n % r.capacity := mod_ne_of_lt (by omega) (by omega)
    have hold := h.slot n (by omega) h2
    rw [slot?_natCast] at hold ⊢
    rw [capacity_dropHead, hslots _ hne]
    exact hold
  · intro i hi hno
    rw [capacity_dropHead] at hi hno
    by_cases hi' : l.dropped % r.capacity = i
    · have hlt : l.dropped % r.capacity < r.slots.size := Nat.mod_lt _ hr
      simp only [dropHead, h.head, index_natCast, ← hi']
      exact Array.getElem?_setIfInBounds_self_of_lt hlt
    · rw [hslots i hi']
      refine h.vacant i hi fun n h1 h2 => ?_
      by_cases hn : n = l.dropped
      · exact hn ▸ hi'
      · exact hno n (show l.dropped + 1 ≤ n by omega) h2

theorem Log.retained_cons {l : Log α} {x : Slot α} (hx : l.entries[l.dropped]? = some x) :
    l.retained = x :: (⟨l.entries, l.dropped + 1⟩ : Log α).retained := by
  obtain ⟨hlt, rfl⟩ := List.getElem?_eq_some_iff.1 hx
  exact List.drop_eq_getElem_cons hlt

/-- dropping expired heads one by one gives up the longest expired stretch -/
theorem shows_evictUpTo (now : ℕ) (n : ℕ) {r : RingBuffer α} {l : Log α} (h : r.Shows l)
    (hn : n = l.entries.length - l.dropped) :
    (evictUpTo now n r).1.Shows (l.expire now) ∧
      (evictUpTo now n r).2 = (l.overdue now).length := by
  induction n generalizing r l with
  | zero =>
    have hd := h.dropped_le
    have hretained : l.retained = [] := List.drop_of_length_le (by omega)
    have hnil : l.overdue now = [] := by rw [Log.overdue_eq, hretained, List.takeWhile_nil]
    have hexp : l.expire now = l := by simp [Log.expire, hnil]
    rw [hexp, hnil]
    exact ⟨h, rfl⟩
  | succ n ih =>
    have hlt : l.dropped < l.entries.length := by omega
    have hx : l.entries[l.dropped]? = some l.entries[l.dropped] := List.getElem?_eq_getElem hlt
    have hcons := Log.retained_cons hx
    simp only [evictUpTo, headExpired_iff h now hx]
    cases hexp : l.entries[l.dropped].expired now with
    | false =>
      have hnil : l.overdue now = [] := by
        rw [Log.overdue_eq, hcons, List.takeWhile_cons_of_neg (by simp [hexp])]
      have hsame : l.expire now = l := by simp [Log.expire, hnil]
      rw [hsame, hnil]
      exact ⟨h, rfl⟩
    | true =>
      obtain ⟨ih1, ih2⟩ := ih (shows_dropHead h hlt) (show n = l.entries.length - (l.dropped + 1) by omega)
      have htake : (l.overdue now).length = ((⟨l.entries, l.dropped + 1⟩ : Log α).overdue now).length + 1 := by
        rw [Log.overdue_eq, Log.overdue_eq, hcons, List.takeWhile_cons_of_pos (by simpa using hexp), List.length_cons]
      have hsame : l.expire now = (⟨l.entries, l.dropped + 1⟩ : Log α).expire now := by
        simp only [Log.expire, htake, Log.mk.injEq, true_and]
        omega
      rw [hsame, htake]
      exact ⟨ih1, by simp only [if_true, ih2]⟩

/-- expiring in the ring is expiring in the log -/
theorem shows_evictExpired {r : RingBuffer α} {l : Log α} (h : r.Shows l) (now : ℕ) :
    (r.evictExpired now).1.Shows (l.expire now) ∧
      (r.evictExpired now).2 = (l.overdue now).length := by
  refine shows_evictUpTo now _ h ?_
  rw [h.size, Int.toNat_natCast]

/-- every entry that is dropped moves the head on by one -/
theorem head_evictUpTo (now n : ℕ) (r : RingBuffer α) :
    (evictUpTo now n r).1.head = r.head + (evictUpTo now n r).2 := by
  induction n generalizing r with
  | zero => simp [evictUpTo]
  | succ n ih =>
    rw [evictUpTo]
    split
    · have hhead : r.dropHead.head = r.head + 1 := rfl
      simp only [ih r.dropHead, hhead]
      push_cast
      omega
    · simp

/-! ## Reading -/

/-- reading the ring is looking up the log -/
theorem Shows.read {r : RingBuffer α} {l : Log α} (h : r.Shows l) (n : ℕ) :
    r.read n = (l.get? n).map Slot.item := by
  have hh := h.head
  have ht := h.tail
  unfold RingBuffer.read Log.get?
  by_cases hn : n < l.dropped
  · rw [if_pos (by omega), if_pos hn]
    rfl
  · rw [if_neg hn]
    by_cases hlt : n < l.entries.length
    · rw [if_neg (by omega), h.slot n (by omega) hlt]
    · rw [if_pos (by omega), List.getElem?_eq_none (by omega)]
      rfl

end RingBuffer

namespace Container

variable {α : Type}

/-- the container was given exactly these records, in this order -/
def Records (c : Container α) (past : List α) : Prop :=
  ∃ l : Log α, c.ring.Shows l ∧ l.entries.map Slot.item = past

theorem records_create {key : JournalKey} {config : StorageConfig} {c : Container α}
    (h : create key config = .ok c) : c.Records [] := by
  unfold create at h
  split at h
  · cases h
  · cases h
    next hc =>
      refine ⟨Log.empty, RingBuffer.shows_empty ?_, rfl⟩
      rw [Nat.pos_iff_ne_zero]
      intro h0
      exact hc (UInt32.toNat_inj.1 h0)

theorem key_create {key : JournalKey} {config : StorageConfig} {c : Container α}
    (h : create key config = .ok c) : c.key = key := by
  unfold create at h
  split at h
  · cases h
  · cases h; rfl

theorem config_create {key : JournalKey} {config : StorageConfig} {c : Container α}
    (h : create key config = .ok c) : c.config = config := by
  unfold create at h
  split at h
  · cases h
  · cases h; rfl

@[simp] theorem key_append (c : Container α) (a : α) (now : ℕ) : (c.append a now).1.key = c.key := rfl

@[simp] theorem tail_append (c : Container α) (a : α) (now : ℕ) : (c.append a now).1.tail = c.tail + 1 := rfl

@[simp] theorem key_cleanup (c : Container α) (now : ℕ) : (c.cleanup now).1.key = c.key := by
  unfold cleanup
  split <;> rfl

theorem config_cleanup (c : Container α) (now : ℕ) : (c.cleanup now).1.config = c.config := by
  unfold cleanup
  split <;> rfl

@[simp] theorem tail_cleanup (c : Container α) (now : ℕ) : (c.cleanup now).1.tail = c.tail := by
  unfold cleanup tail
  split
  · exact RingBuffer.tail_evictExpired c.ring now
  · rfl

/-- the head moves on by what is dropped -/
theorem head_cleanup (c : Container α) (now : ℕ) : (c.cleanup now).1.head = c.head + (c.cleanup now).2 := by
  unfold cleanup
  split
  · exact RingBuffer.head_evictUpTo now _ c.ring
  · simp

theorem records_append {c : Container α} {past : List α} (h : c.Records past) (a : α) (now : ℕ) :
    (c.append a now).1.Records (past ++ [a]) := by
  obtain ⟨l, hl, rfl⟩ := h
  refine ⟨_, RingBuffer.shows_add hl a (c.expiry now), ?_⟩
  simp [Log.append]

theorem records_cleanup {c : Container α} {past : List α} (h : c.Records past) (now : ℕ) :
    (c.cleanup now).1.Records past := by
  obtain ⟨l, hl, rfl⟩ := h
  unfold cleanup
  split
  · exact ⟨_, (RingBuffer.shows_evictExpired hl now).1, rfl⟩
  · exact ⟨l, hl, rfl⟩

theorem Records.tail {c : Container α} {past : List α} (h : c.Records past) :
    c.tail = (past.length : Int) - 1 := by
  obtain ⟨l, hl, rfl⟩ := h
  rw [Container.tail, hl.tail, List.length_map]

theorem Records.head_nonneg {c : Container α} {past : List α} (h : c.Records past) : 0 ≤ c.head := by
  obtain ⟨l, hl, rfl⟩ := h
  rw [Container.head, hl.head]
  omega

/-- from the head on no sequence is negative -/
theorem Records.natural {c : Container α} {past : List α} (h : c.Records past) {s : Int} (hs : c.head ≤ s) :
    ∃ n : ℕ, s = n := ⟨s.toNat, (Int.toNat_of_nonneg (h.head_nonneg.trans hs)).symm⟩

theorem Records.head_le {c : Container α} {past : List α} (h : c.Records past) : c.head ≤ c.tail + 1 := by
  obtain ⟨l, hl, rfl⟩ := h
  have := hl.dropped_le
  rw [Container.head, Container.tail, hl.head, hl.tail]
  omega

/-- a retained sequence denotes the record that was given under it -/
theorem Records.read {c : Container α} {past : List α} (h : c.Records past) {n : ℕ} (hn : c.head ≤ n) :
    c.ring.read n = past[n]? := by
  obtain ⟨l, hl, rfl⟩ := h
  have hd : ¬ n < l.dropped := by
    rw [Container.head, hl.head] at hn
    omega
  rw [hl.read, Log.get?, if_neg hd, List.getElem?_map]

theorem Records.readOne {c : Container α} {past : List α} (h : c.Records past) {n : ℕ} (hn : c.head ≤ n) {a : α}
    (ha : past[n]? = some a) : c.readOne n = .ok a := by
  have hlt := (List.getElem?_eq_some_iff.1 ha).1
  have htail := h.tail
  rw [Container.readOne, if_neg (by omega), h.read hn, ha]

end Container

end Changefeed
