/-
What a clean-up drops. It walks from the head over the records whose time to live is over, and stops at the first whose time is
not: so it drops the longest expired stretch at the front of what is retained, and nothing behind it. Where the clock went back
between two writes, an expired record can be left behind one that still lives; where it never did, nothing expired is left.

Results:
- `evictExpired_twice`: cleaning up at two moments is cleaning up at the later of them;
- `Underwent.cleaned`: the records that a clean-up drops and the ones that it keeps, from the moments they were written;
- `Underwent.expired_iff_dropped`: if the clock never went back, what is dropped is what has expired;
- `cleanup_exact`: all of it, for every container.
-/
import Changefeed.Proofs.Failures
import Changefeed.Proofs.Ranges

namespace Changefeed

/-- the record that was appended as number `n` has expired when the clock shows `now`; expiry times end where the clock does -/
def Act.Expired {α : Type} (acts : List (Act α)) (ttlSeconds n now : ℕ) : Prop :=
  ∃ p, (appended acts)[n]? = some p ∧ min 18446744073709551615 (p.2 + 1000 * ttlSeconds) ≤ now

/-- no record was appended at an earlier reading of the clock than the one before it -/
def Act.Forward {α : Type} (acts : List (Act α)) : Prop := (appended acts).Pairwise fun p q => p.2 ≤ q.2

theorem Act.Expired.earlier {α : Type} {acts : List (Act α)} (hforward : Forward acts) {ttlSeconds m n now : ℕ}
    (h : Expired acts ttlSeconds n now) (hmn : m ≤ n) : Expired acts ttlSeconds m now := by
  obtain ⟨p, hp, hnow⟩ := h
  obtain ⟨hn, rfl⟩ := List.getElem?_eq_some_iff.1 hp
  rcases Nat.eq_or_lt_of_le hmn with rfl | hlt
  · exact ⟨_, hp, hnow⟩
  · have hle := List.pairwise_iff_getElem.1 hforward m n (by omega) hn hlt
    refine ⟨_, List.getElem?_eq_getElem (by omega), ?_⟩
    omega

theorem Slot.expired_mono {α : Type} {slot : Slot α} {a b : ℕ} (hab : a ≤ b) (h : slot.expired a = true) :
    slot.expired b = true := by
  unfold expired at h ⊢
  cases ht : slot.expiresAt with
  | none =>
    rw [ht] at h
    cases h
  | some t =>
    rw [ht] at h
    have hle : t ≤ a := of_decide_eq_true h
    exact decide_eq_true (hle.trans hab)

namespace RingBuffer

variable {α : Type}

theorem headExpired_mono {r : RingBuffer α} {a b : ℕ} (hab : a ≤ b) (h : r.headExpired a = true) :
    r.headExpired b = true := by
  unfold headExpired at h ⊢
  cases hs : r.slot? r.head with
  | none => rfl
  | some slot =>
    rw [hs] at h
    exact Slot.expired_mono hab h

theorem size_dropHead (r : RingBuffer α) : r.dropHead.size = r.size - 1 := by
  simp only [size, dropHead]
  omega

/-- entries are dropped until none is left or the first one has not expired -/
theorem headExpired_evictUpTo (now : ℕ) {n : ℕ} {r : RingBuffer α} (hn : n = r.size.toNat)
    (hleft : 0 < (evictUpTo now n r).1.size) : (evictUpTo now n r).1.headExpired now = false := by
  induction n generalizing r with
  | zero =>
    simp only [evictUpTo] at hleft
    omega
  | succ n ih =>
    rw [evictUpTo] at hleft ⊢
    cases hexpired : r.headExpired now with
    | true =>
      simp only [hexpired, if_true] at hleft ⊢
      have hsize := size_dropHead r
      exact ih (by omega) hleft
    | false =>
      simp only [Bool.false_eq_true, if_false]
      exact hexpired

/-- dropping what has expired at one moment, and then what has at another, is dropping what has at the later -/
theorem evictUpTo_twice (a b : ℕ) {n : ℕ} {r : RingBuffer α} (hn : n = r.size.toNat) :
    ((evictUpTo a n r).1.evictExpired b).1 = (evictUpTo (max a b) n r).1 ∧
      (evictUpTo a n r).2 + ((evictUpTo a n r).1.evictExpired b).2 = (evictUpTo (max a b) n r).2 := by
  induction n generalizing r with
  | zero =>
    rw [evictUpTo, evictExpired, ← hn]
    exact ⟨rfl, rfl⟩
  | succ n ih =>
    cases hexpired : r.headExpired a with
    | true =>
      have hsize := size_dropHead r
      obtain ⟨hring, hcount⟩ := ih (r := r.dropHead) (by omega)
      have hmax := headExpired_mono (le_max_left a b) hexpired
      simp only [evictUpTo, hexpired, hmax, if_true]
      exact ⟨hring, by omega⟩
    | false =>
      have hfirst : evictUpTo a (n + 1) r = (r, 0) := by rw [evictUpTo, if_neg (by simp [hexpired])]
      rw [hfirst, evictExpired, ← hn, Nat.zero_add]
      rcases le_total a b with hab | hba
      · rw [max_eq_right hab]
        exact ⟨rfl, rfl⟩
      · -- the head has not expired at the earlier moment either
        have hother : r.headExpired b = false := by
          rw [← Bool.not_eq_true]
          intro h
          rw [headExpired_mono hba h] at hexpired
          cases hexpired
        have hsecond : evictUpTo b (n + 1) r = (r, 0) := by rw [evictUpTo, if_neg (by simp [hother])]
        rw [max_eq_left hba, hfirst, hsecond]
        exact ⟨rfl, rfl⟩

theorem evictExpired_twice (r : RingBuffer α) (a b : ℕ) :
    ((r.evictExpired a).1.evictExpired b).1 = (r.evictExpired (max a b)).1 ∧
      (r.evictExpired a).2 + ((r.evictExpired a).1.evictExpired b).2 = (r.evictExpired (max a b)).2 :=
  evictUpTo_twice a b rfl

end RingBuffer

namespace Container

variable {α : Type} {c : Container α} {acts : List (Act α)}

theorem cleanup_of_expires (h : c.config.expires = true) (now : ℕ) :
    c.cleanup now = ({ c with ring := (c.ring.evictExpired now).1 }, (c.ring.evictExpired now).2) := if_pos h

theorem cleanup_of_lasting (h : c.config.expires = false) (now : ℕ) : c.cleanup now = (c, 0) :=
  if_neg (by simp [h])

/-- cleaning up at two moments is cleaning up at the later of them -/
theorem cleanup_twice (c : Container α) (a b : ℕ) :
    ((c.cleanup a).1.cleanup b).1 = (c.cleanup (max a b)).1 ∧
      (c.cleanup a).2 + ((c.cleanup a).1.cleanup b).2 = (c.cleanup (max a b)).2 := by
  cases h : c.config.expires with
  | false =>
    rw [cleanup_of_lasting h a, cleanup_of_lasting h (max a b), cleanup_of_lasting h b]
    exact ⟨rfl, rfl⟩
  | true =>
    obtain ⟨hring, hcount⟩ := c.ring.evictExpired_twice a b
    rw [cleanup_of_expires h a, cleanup_of_expires h (max a b), cleanup_of_expires (by exact h) b]
    exact ⟨by rw [hring], hcount⟩

/-! ## What is dropped -/

/-- the slot of a retained sequence holds the record that was appended under it, and expires when that does -/
theorem Underwent.slot_expired (h : c.Underwent acts) (hexpires : c.config.ttlSeconds ≠ 0) {n : ℕ} (hn : c.head ≤ n)
    (hn' : n ≤ c.tail) (now : ℕ) :
    ∃ slot, c.ring.slot? n = some slot ∧
      (slot.expired now = true ↔ Act.Expired acts c.config.ttlSeconds.toNat n now) := by
  have hring := h.mirrors.ring
  have hhead : c.head = _ := hring.head
  have htail : c.tail = _ := hring.tail
  have hslot := hring.slot n (by omega) (by omega)
  have httl : c.config.ttlSeconds.toNat ≠ 0 := fun h0 => hexpires (UInt32.toNat_inj.1 h0)
  have hlt : n < (Act.appended acts).length := by
    rw [h.entries, List.length_map] at htail
    omega
  rw [h.entries, List.getElem?_map, List.getElem?_eq_getElem hlt, Option.map_some] at hslot
  refine ⟨_, hslot, ?_⟩
  simp only [Slot.expired, Log.deadline, if_neg httl, decide_eq_true_eq, Act.Expired, List.getElem?_eq_getElem hlt,
    Option.some.injEq, exists_eq_left']

/-- A clean-up at `now` makes of the container `c` the container `c'` and drops `k` records: the longest stretch of expired
records at the head. -/
structure Cleaned (acts : List (Act α)) (c : Container α) (now : ℕ) (c' : Container α) (k : ℕ) : Prop where
  head : c'.head = c.head + k
  tail : c'.tail = c.tail
  within : c'.head ≤ c'.tail + 1
  dropped : ∀ n : ℕ, c.head ≤ n → n < c'.head → Act.Expired acts c.config.ttlSeconds.toNat n now
  /-- the record that is now at the head, if there is one, has not expired -/
  stops : ∀ n : ℕ, n = c'.head → n ≤ c'.tail → ¬ Act.Expired acts c.config.ttlSeconds.toNat n now
  /-- every other record stays where it is, with its expiry time -/
  slots : ∀ n : ℕ, c'.head ≤ n → n ≤ c'.tail → c'.ring.slot? n = c.ring.slot? n
  reads : ∀ s, c'.head ≤ s → c'.readOne s = c.readOne s
  settings : c'.key = c.key ∧ c'.config = c.config

/-- what stays retained stays in its slot -/
theorem Underwent.slot_cleanup (h : c.Underwent acts) (now : ℕ) {n : ℕ} (hn : (c.cleanup now).1.head ≤ n)
    (hn' : n ≤ c.tail) : (c.cleanup now).1.ring.slot? n = c.ring.slot? n := by
  have hring := h.mirrors.ring
  have hlater := (mirrors_cleanup h.mirrors now).1.ring
  have hhead : (c.cleanup now).1.head = _ := hlater.head
  have htail : c.tail = _ := hring.tail
  have hle := Log.dropped_le_expire (Log.empty.perform c.config acts).1 now
  have hlt : n < (Log.empty.perform c.config acts).1.entries.length := by omega
  rw [hring.slot n (by omega) hlt, hlater.slot n (by omega) hlt]
  rfl

/-- what stays retained is read as before, and so is what was never written -/
theorem Underwent.readOne_cleanup (h : c.Underwent acts) (now : ℕ) {s : Int} (hs : (c.cleanup now).1.head ≤ s) :
    (c.cleanup now).1.readOne s = c.readOne s := by
  have hlater := records_cleanup h.records now
  have htail := tail_cleanup c now
  have hhead := head_cleanup c now
  by_cases hs' : s ≤ c.tail
  · obtain ⟨n, rfl⟩ := hlater.natural hs
    have hlt : n < (Act.items acts).length := by
      have := h.records.tail
      omega
    have hget := List.getElem?_eq_getElem hlt
    rw [hlater.readOne hs hget, h.records.readOne (by omega) hget]
  · rw [readOne_behind (by omega), readOne_behind (by omega), htail]

theorem Underwent.cleaned (h : c.Underwent acts) (hexpires : c.config.ttlSeconds ≠ 0) (now : ℕ) :
    Cleaned acts c now (c.cleanup now).1 (c.cleanup now).2 := by
  have httl : c.config.expires = true := (expires_iff _).2 fun h0 => hexpires (UInt32.toNat_inj.1 h0)
  have hring : (c.cleanup now).1.ring = (c.ring.evictExpired now).1 := by rw [cleanup_of_expires httl]
  have htail := tail_cleanup c now
  have hhead := head_cleanup c now
  have hwithin := (records_cleanup h.records now).head_le
  refine ⟨hhead, htail, hwithin, ?_, ?_, ?_, fun s hs => h.readOne_cleanup now hs, key_cleanup c now, config_cleanup c now⟩
  · intro n hn hlost
    have hlost' : (n : Int) < (c.ring.evictExpired now).1.head := by rwa [← hring]
    obtain ⟨slot, hslot, hexpired⟩ := RingBuffer.expired_of_evicted h.mirrors.ring hn hlost'
    obtain ⟨slot', hslot', hiff⟩ := h.slot_expired hexpires hn (by omega) now
    rw [hslot] at hslot'
    cases hslot'
    exact hiff.1 hexpired
  · intro n hn hn' hexpired
    have hsize : 0 < (c.ring.evictExpired now).1.size := by
      have hsize : (c.cleanup now).1.ring.size = (c.cleanup now).1.tail - (c.cleanup now).1.head + 1 := rfl
      rw [← hring]
      omega
    have hfirst : (c.cleanup now).1.ring.headExpired now = false := by
      rw [hring]
      exact RingBuffer.headExpired_evictUpTo now rfl hsize
    obtain ⟨slot, hslot, hiff⟩ := h.slot_expired hexpires (n := n) (by omega) (by omega) now
    have hhead' : (c.cleanup now).1.ring.slot? (c.cleanup now).1.ring.head = some slot := by
      rw [← hslot, ← h.slot_cleanup now (by omega) (by omega), hn]
      rfl
    simp only [RingBuffer.headExpired, hhead', hiff.2 hexpired] at hfirst
    cases hfirst
  · intro n hn hn'
    exact h.slot_cleanup now hn (by omega)

/-- if the clock never went back, exactly what has expired is dropped -/
theorem Underwent.expired_iff_dropped (h : c.Underwent acts) (hexpires : c.config.ttlSeconds ≠ 0)
    (hforward : Act.Forward acts) (now : ℕ) {n : ℕ} (hn : c.head ≤ n) (hn' : n ≤ c.tail) :
    (n : Int) < (c.cleanup now).1.head ↔ Act.Expired acts c.config.ttlSeconds.toNat n now := by
  have hcleaned := h.cleaned hexpires now
  constructor
  · exact hcleaned.dropped n hn
  · intro hexpired
    by_contra hkept
    -- the record at the head was written no later than this one, so it has expired too
    obtain ⟨m, hm⟩ := (records_cleanup h.records now).natural le_rfl
    have htail := hcleaned.tail
    exact hcleaned.stops m hm.symm (by omega) (hexpired.earlier hforward (by omega))

/-- **What a clean-up drops.** After any operations on a container with a time to live, a clean-up drops the longest stretch of
expired records at its head, tells how many they are, and keeps everything else; if the clock never went back from one write to
the next, no expired record is left. Without a time to live it drops nothing. Cleaning up at two moments, in either order, leaves
what cleaning up at the later of them does, and drops as much. -/
theorem cleanup_exact (h : c.Underwent acts) :
    (c.config.ttlSeconds = 0 → ∀ now, c.cleanup now = (c, 0)) ∧
    (c.config.ttlSeconds ≠ 0 → ∀ now, Cleaned acts c now (c.cleanup now).1 (c.cleanup now).2 ∧
      (Act.Forward acts → ∀ n : ℕ, c.head ≤ n → n ≤ c.tail →
        ((n : Int) < (c.cleanup now).1.head ↔ Act.Expired acts c.config.ttlSeconds.toNat n now))) ∧
    ∀ a b, ((c.cleanup a).1.cleanup b).1 = (c.cleanup (max a b)).1 ∧
      ((c.cleanup b).1.cleanup a).1 = (c.cleanup (max a b)).1 ∧
      (c.cleanup a).2 + ((c.cleanup a).1.cleanup b).2 = (c.cleanup (max a b)).2 ∧
      (c.cleanup b).2 + ((c.cleanup b).1.cleanup a).2 = (c.cleanup (max a b)).2 := by
  refine ⟨?_, ?_, ?_⟩
  · intro hlasting now
    refine cleanup_of_lasting ?_ now
    rw [StorageConfig.expires, hlasting]
    rfl
  · intro hexpires now
    exact ⟨h.cleaned hexpires now, fun hforward n hn hn' => h.expired_iff_dropped hexpires hforward now hn hn'⟩
  · intro a b
    obtain ⟨hleft, hleft'⟩ := c.cleanup_twice a b
    obtain ⟨hright, hright'⟩ := c.cleanup_twice b a
    rw [max_comm] at hright hright'
    exact ⟨hleft, hright, hleft', hright'⟩

/-- four records on a steady clock, the first of which is overwritten -/
def steadyActs : List (Act Char) := [.append 'a' 0, .append 'b' 500, .append 'c' 1500, .append 'd' 4000]

/-- with a time to live of a second, the second and the third record have expired a second after the third was written, and are
dropped; without one, nothing ever is -/
theorem cleanup_exact_steady :
    ∃ c d : Container Char, c.Underwent steadyActs ∧ c.config.ttlSeconds ≠ 0 ∧ Act.Forward steadyActs ∧
      Cleaned steadyActs c 2500 (c.cleanup 2500).1 2 ∧
      (∀ n : ℕ, c.head ≤ n → n ≤ c.tail → ((n : Int) < (c.cleanup 2500).1.head ↔ Act.Expired steadyActs 1 n 2500)) ∧
      ((c.cleanup 2000).1.cleanup 2500).1 = (c.cleanup 2500).1 ∧
      d.Underwent steadyActs ∧ d.config.ttlSeconds = 0 ∧ d.cleanup 18446744073709551615 = (d, 0) := by
  let c : Container Char := (perform ⟨⟨.map "orders", 0⟩, { capacity := 3, ttlSeconds := 1 }, .empty 3⟩ steadyActs).1
  let d : Container Char := (perform ⟨⟨.map "orders", 0⟩, { capacity := 3 }, .empty 3⟩ steadyActs).1
  have hc : c.Underwent steadyActs := ⟨⟨.map "orders", 0⟩, { capacity := 3, ttlSeconds := 1 }, _, rfl, rfl⟩
  have hd : d.Underwent steadyActs := ⟨⟨.map "orders", 0⟩, { capacity := 3 }, _, rfl, rfl⟩
  have hforward : Act.Forward steadyActs := by
    unfold Act.Forward
    decide
  have hcount : (c.cleanup 2500).2 = 2 := by decide
  obtain ⟨-, hlimited, htwice⟩ := cleanup_exact hc
  obtain ⟨hcleaned, hdropped⟩ := hlimited (by decide) 2500
  obtain ⟨hlasting, -⟩ := cleanup_exact hd
  rw [hcount] at hcleaned
  exact ⟨c, d, hc, by decide, hforward, hcleaned, hdropped hforward, (htwice 2000 2500).1, hd, rfl, hlasting rfl _⟩

end Container

end Changefeed
