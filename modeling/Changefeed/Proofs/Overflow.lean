/-
A container never leaves its machine words. As long as fewer than `2 ^ 63` records were appended to it, head, tail and
capacity lie so far inside a signed word (`Fits`) that nothing which the operations compute from them overflows, at any
sequence and at any clock reading: they look at a sequence before they compute with it, and compute only with those that are
retained. So the operations in words come to what the operations on whole numbers come to.

Results:
- `Fits.word`: whatever is computed from head and tail is a word;
- `add_eq`, `evictExpired_eq`: the two changes of a ring;
- `read_eq`, `checkPosition_eq`, `readMany_eq`: what is asked of it;
- `fits_of_mirrors`: the ring of a container that mirrors a log of fewer than `2 ^ 63` entries;
- `perform_eq`: a run of a container;
- `words_suffice`: all of it, from the creation of a container on.
-/
import Changefeed.Words
import Changefeed.Proofs.Lifetime

namespace Changefeed

namespace Words

variable {α β : Type}

/-! ## Words -/

theorem signed_eq {n : Int} (h : -9223372036854775808 ≤ n) (h' : n < 9223372036854775808) : signed n = some n := by
  have hhalf : (Width.half .w64 : Int) = 9223372036854775808 := rfl
  rw [signed, Signed.ofInt?, dif_pos ⟨by omega, by omega⟩, Option.map_some]

theorem unsigned_eq {n : ℕ} (h : n < 18446744073709551616) : unsigned n = some n := by
  have hcount : Width.count .w64 = 18446744073709551616 := rfl
  rw [unsigned, Unsigned.ofNat?, dif_pos (by omega), Option.map_some]

theorem saturated_eq (n : ℕ) : saturated n = min Container.clockMax n := by
  have hcount : Width.count .w64 = 18446744073709551616 := rfl
  have hmax : Container.clockMax = 18446744073709551615 := rfl
  unfold saturated unsigned Unsigned.ofNat?
  split
  · next h =>
    simp only [Option.map_some, Option.getD_some]
    omega
  · next h =>
    simp only [Option.map_none, Option.getD_none]
    omega

/-! ## Rings -/

/-- the ring has slots, fewer than a word of 32 bits can count, and one more record can be numbered -/
structure Fits (r : RingBuffer α) : Prop where
  room : 0 < r.capacity
  capacity : r.capacity < 4294967296
  head_nonneg : 0 ≤ r.head
  head_le : r.head ≤ r.tail + 1
  tail : r.tail + 1 < 9223372036854775808

section Ring

variable {r : RingBuffer α}

/-- whatever is computed from head and tail lies between these bounds -/
theorem Fits.word (h : Fits r) {n : Int} (hlow : -4294967296 ≤ n) (hhigh : n ≤ r.tail + 1) : signed n = some n := by
  have htail := h.tail
  exact signed_eq (by omega) (by omega)

theorem capacity_eq (h : Fits r) : capacity r = some (r.capacity : Int) := by
  have hcapacity := h.capacity
  exact signed_eq (by omega) (by omega)

theorem size_eq (h : Fits r) : size r = some r.size := by
  have hnonneg := h.head_nonneg
  have hle := h.head_le
  have hdiff : signed (r.tail - r.head) = some (r.tail - r.head) := h.word (by omega) (by omega)
  have hsize : signed (r.tail - r.head + 1) = some (r.tail - r.head + 1) := h.word (by omega) (by omega)
  simp only [size, hdiff, Option.bind_eq_bind, Option.bind_some, hsize, RingBuffer.size]

/-- a remainder is never negative, whatever the sequence -/
theorem index_eq (h : Fits r) (s : Int) : index r s = some (r.index s) := by
  have hcapacity := h.capacity
  have hroom := h.room
  have hlow := Int.emod_nonneg s (by omega : (r.capacity : Int) ≠ 0)
  have hhigh := Int.emod_lt_of_pos s (by omega : (0 : Int) < r.capacity)
  have hmod : signed (s % r.capacity) = some (s % r.capacity) := signed_eq (by omega) (by omega)
  simp only [index, capacity_eq h, Option.bind_eq_bind, Option.bind_some, hmod, RingBuffer.index]
  rw [if_pos ⟨hlow, hhigh⟩]

theorem add_eq (h : Fits r) (item : α) (e : Option ℕ) : add r item e = some (r.add item e) := by
  have hcapacity := h.capacity
  have hroom := h.room
  have hnonneg := h.head_nonneg
  have hle := h.head_le
  have hnext : signed (r.tail + 1) = some (r.tail + 1) := h.word (by omega) le_rfl
  have holdest : signed (r.tail + 1 - r.capacity) = some (r.tail + 1 - r.capacity) := h.word (by omega) (by omega)
  simp only [add, hnext, holdest, capacity_eq h, index_eq h, Option.bind_eq_bind, Option.bind_some, Option.pure_def,
    RingBuffer.add]
  split
  · -- the head of a full ring is not behind the tail
    have hhead : signed (r.head + 1) = some (r.head + 1) := h.word (by omega) (by omega)
    rw [hhead, Option.bind_some]
  · rfl

theorem read_eq (h : Fits r) (s : Int) : read r s = some (r.read s) := by
  simp only [read, index_eq h, Option.bind_eq_bind, Option.bind_some, Option.pure_def, RingBuffer.read, RingBuffer.slot?]
  split <;> rfl

theorem fits_dropHead (h : Fits r) (hlt : r.head ≤ r.tail) : Fits r.dropHead := by
  have hnonneg := h.head_nonneg
  refine ⟨?_, ?_, ?_, ?_, h.tail⟩
  · rw [RingBuffer.capacity_dropHead]
    exact h.room
  · rw [RingBuffer.capacity_dropHead]
    exact h.capacity
  · show 0 ≤ r.head + 1
    omega
  · show r.head + 1 ≤ r.tail + 1
    omega

theorem evictUpTo_eq (h : Fits r) (now : ℕ) {n k : ℕ} (hn : n ≤ r.tail + 1 - r.head)
    (hk : k + n < 18446744073709551616) :
    evictUpTo now n r k = some ((r.evictUpTo now n).1, k + (r.evictUpTo now n).2) := by
  induction n generalizing r k with
  | zero => rfl
  | succ n ih =>
    have hnonneg := h.head_nonneg
    have hhead : signed (r.head + 1) = some (r.head + 1) := h.word (by omega) (by omega)
    have hcount : unsigned (k + 1) = some (k + 1) := unsigned_eq (by omega)
    have hexpired : expiredAt r (r.index r.head) now = r.headExpired now := rfl
    have hleft : (n : Int) ≤ r.dropHead.tail + 1 - r.dropHead.head := by
      show (n : Int) ≤ r.tail + 1 - (r.head + 1)
      omega
    have hrest := ih (fits_dropHead h (by omega)) (k := k + 1) hleft (by omega)
    simp only [evictUpTo, index_eq h, hexpired, hhead, hcount, Option.bind_eq_bind, Option.bind_some, RingBuffer.evictUpTo]
    split
    · exact hrest.trans (by simp only [Nat.add_assoc, Nat.add_comm 1])
    · rfl

theorem evictExpired_eq (h : Fits r) (now : ℕ) : evictExpired r now = some (r.evictExpired now) := by
  have hnonneg := h.head_nonneg
  have hle := h.head_le
  have htail := h.tail
  have hsize : r.size = r.tail - r.head + 1 := rfl
  rw [evictExpired, evictUpTo_eq h now (by omega) (by omega), Nat.zero_add]
  rfl

end Ring

/-! ## Containers -/

section Container

variable {c : Container α}

theorem head_eq (h : Fits c.ring) : signed c.head = some c.head := by
  have hnonneg := h.head_nonneg
  exact h.word (show -4294967296 ≤ c.ring.head by omega) h.head_le

theorem tail_eq (h : Fits c.ring) : signed c.tail = some c.tail := by
  have hnonneg := h.head_nonneg
  have hle := h.head_le
  exact h.word (show -4294967296 ≤ c.ring.tail by omega) (show c.ring.tail ≤ c.ring.tail + 1 by omega)

theorem count_eq (h : Fits c.ring) : count c = some c.size := by
  have hnonneg := h.head_nonneg
  have htail := h.tail
  have hsize : c.ring.size = c.ring.tail - c.ring.head + 1 := rfl
  have hword : unsigned c.ring.size.toNat = some c.ring.size.toNat := unsigned_eq (by omega)
  simp only [count, size_eq h, Option.bind_eq_bind, Option.bind_some, hword, Container.size]

theorem remaining_eq (h : Fits c.ring) : remaining c = some c.remaining := by
  have hnonneg := h.head_nonneg
  have hle := h.head_le
  have htail := h.tail
  have hcapacity := h.capacity
  have hsize : c.ring.size = c.ring.tail - c.ring.head + 1 := rfl
  have hfree : signed ((c.ring.capacity : Int) - c.ring.size) = some ((c.ring.capacity : Int) - c.ring.size) :=
    signed_eq (by omega) (by omega)
  have hword : unsigned ((c.ring.capacity : Int) - c.ring.size).toNat = some ((c.ring.capacity : Int) - c.ring.size).toNat :=
    unsigned_eq (by omega)
  simp only [remaining, capacity_eq h, size_eq h, Option.bind_eq_bind, Option.bind_some, hfree, hword, Container.remaining]

/-- a lifetime in milliseconds is a word, and the moment at which it is over is cut off as it has to be -/
theorem expiry_eq (c : Container α) (now : ℕ) : expiry c now = some (c.expiry now) := by
  have httl : c.config.ttlSeconds.toNat < 4294967296 := c.config.ttlSeconds.toNat_lt
  have hlife : unsigned (c.config.ttlSeconds.toNat * 1000) = some (c.config.ttlSeconds.toNat * 1000) :=
    unsigned_eq (by omega)
  simp only [expiry, hlife, Option.bind_eq_bind, Option.bind_some, Option.pure_def, saturated_eq, Container.expiry]
  split <;> rfl

theorem append_eq (h : Fits c.ring) (item : α) (now : ℕ) : append c item now = some (c.append item now) := by
  simp only [append, expiry_eq, add_eq h, Option.bind_eq_bind, Option.bind_some, Option.pure_def, Container.append]

theorem cleanup_eq (h : Fits c.ring) (now : ℕ) : cleanup c now = some (c.cleanup now) := by
  simp only [cleanup, evictExpired_eq h, Option.bind_eq_bind, Option.bind_some, Option.pure_def, Container.cleanup]
  split <;> rfl

theorem readOne_eq (h : Fits c.ring) (s : Int) : readOne c s = some (c.readOne s) := by
  simp only [readOne, read_eq h, Option.bind_eq_bind, Option.bind_some, Option.pure_def, Container.readOne]
  split
  · rfl
  · cases c.ring.read s <;> rfl

/-- the sequence is compared with the one behind the tail before anything is computed from it -/
theorem checkPosition_eq (h : Fits c.ring) (s : Int) : checkPosition c s = some (c.checkPosition s) := by
  have hnonneg := h.head_nonneg
  have hle := h.head_le
  have hnext : signed (c.tail + 1) = some (c.tail + 1) := h.word (show -4294967296 ≤ c.ring.tail + 1 by omega) le_rfl
  simp only [checkPosition, hnext, Option.bind_eq_bind, Option.bind_some, Option.pure_def, Container.checkPosition]
  split
  · rfl
  · split <;> rfl

theorem shouldWait_eq (h : Fits c.ring) (s : Int) : shouldWait c s = some (c.shouldWait s) := by
  have hword := tail_eq h
  simp only [shouldWait, hword, Option.bind_eq_bind, Option.bind_some, Option.pure_def, Container.shouldWait]

end Container

/-! ## Scans -/

theorem offer_eq {s : Int} (hnext : signed (s + 1) = some (s + 1)) {b : Batch α β}
    (hb : b.visited + 1 < 18446744073709551616) (a : α) : offer b s a = some (b.offer s a) := by
  have hvisited : unsigned (b.visited + 1) = some (b.visited + 1) := unsigned_eq hb
  simp only [offer, hvisited, hnext, Option.bind_eq_bind, Option.bind_some, Option.pure_def, Batch.offer]

/-- a scan that ends at the tail counts as far as the batch that it ends with -/
theorem offerFrom_eq {r : RingBuffer α} (h : Fits r) {n : ℕ} {s : Int} (hs : r.head ≤ s)
    (hn : s + n ≤ r.tail + 1) {b : Batch α β} {k : ℕ} (hk : k ≤ b.visited)
    (hb : (Container.offerFrom r n s b).1.visited < 18446744073709551616) :
    offerFrom r n s b k = some ((Container.offerFrom r n s b).1, (Container.offerFrom r n s b).2,
      k + ((Container.offerFrom r n s b).1.visited - b.visited)) := by
  induction n generalizing s b k with
  | zero => simp [offerFrom, Container.offerFrom]
  | succ n ih =>
    have hnonneg := h.head_nonneg
    have hnext : signed (s + 1) = some (s + 1) := h.word (by omega) (by omega)
    cases hf : b.full with
    | true =>
      rw [offerFrom, if_pos hf, Container.offerFrom_full r _ s hf]
      simp
    | false =>
      rw [Container.offerFrom_succ r n s hf] at hb ⊢
      have hvisited := (Container.offerFrom_bounds r n (s + 1) (b.offer? s (r.read s))).2.2
      rw [offerFrom, if_neg (by simp [hf]), read_eq h]
      cases hr : r.read s with
      | none =>
        have hsame : b.offer? s none = b := rfl
        rw [hr, hsame] at hb
        rw [hsame]
        have hrest := ih (s := s + 1) (by omega) (by omega) hk hb
        simpa only [hnext, Option.bind_eq_bind, Option.bind_some] using hrest
      | some a =>
        rw [hr] at hb hvisited
        have hone : (b.offer? s (some a)).visited = b.visited + 1 := rfl
        have hoffer : offer b s a = some (b.offer? s (some a)) := offer_eq hnext (by omega) a
        have hcount : unsigned (k + 1) = some (k + 1) := unsigned_eq (by omega)
        have hrest := ih (s := s + 1) (k := k + 1) (by omega) (by omega) (by omega) hb
        have hsum : k + 1 + ((Container.offerFrom r n (s + 1) (b.offer? s (some a))).1.visited - (b.visited + 1)) =
            k + ((Container.offerFrom r n (s + 1) (b.offer? s (some a))).1.visited - b.visited) := by omega
        rw [hone, hsum] at hrest
        simpa only [hoffer, hcount, hnext, Option.bind_eq_bind, Option.bind_some] using hrest

theorem readMany_eq {c : Container α} (h : Fits c.ring) (s : Int) (b : Batch α β)
    (hb : ∀ b' n, c.readMany s b = .ok (b', n) → b'.visited < 18446744073709551616) :
    readMany c s b = some (c.readMany s b) := by
  rw [readMany, checkPosition_eq h]
  cases hpos : c.checkPosition s with
  | error e =>
    rw [Container.readMany_error_iff.2 hpos]
    rfl
  | ok _ =>
    obtain ⟨hs, hs'⟩ := Container.checkPosition_ok_iff.1 hpos
    have hread := Container.readMany_eq hs hs' b
    have hvisited := hb _ _ hread
    have hvisited : (Container.offerFrom c.ring (c.tail + 1 - s).toNat s b).1.visited < 18446744073709551616 := hvisited
    have hscan := offerFrom_eq h hs (by unfold Container.tail at hs' ⊢; omega) (Nat.zero_le _) hvisited
    simp only [Option.bind_eq_bind, Option.bind_some, hscan, Option.pure_def, Nat.zero_add, hread]

/-! ## Runs -/

/-- a container after an operation, with its answer -/
def act (c : Container α) : Act α → Option (Container α × Int)
  | .append item now => append c item now
  | .cleanup now => (cleanup c now).map fun (c, n) => (c, (n : Int))

/-- a container after a series of operations, with the answers -/
def perform (c : Container α) : List (Act α) → Option (Container α × List Int)
  | [] => some (c, [])
  | a :: acts => do
    let (c, n) ← act c a
    let (c, ns) ← perform c acts
    return (c, n :: ns)

theorem act_eq {c : Container α} (h : Fits c.ring) (a : Act α) : act c a = some (c.act a) := by
  cases a with
  | append item now => exact append_eq h item now
  | cleanup now => rw [act, cleanup_eq h, Option.map_some, Container.act]

/-- a container that was given fewer than `2 ^ 63` records can number one more -/
theorem fits_of_mirrors {config : StorageConfig} {c : Container α} {l : Log α} (h : Container.Mirrors config c l)
    (hfew : l.entries.length < 9223372036854775808) : Fits c.ring := by
  have hcapacity : config.capacity.toNat < 4294967296 := config.capacity.toNat_lt
  have hhead := h.ring.head
  have htail := h.ring.tail
  have hdropped := h.ring.dropped_le
  refine ⟨h.ring.room, ?_, by omega, by omega, by omega⟩
  rw [h.capacity]
  exact hcapacity

/-- an operation counts with its appends towards the records of a run -/
theorem length_act (config : StorageConfig) (l : Log α) (a : Act α) (acts : List (Act α)) :
    (l.act config a).1.entries.length + (Act.appended acts).length =
      l.entries.length + (Act.appended (a :: acts)).length := by
  cases a with
  | append item now =>
    rw [Act.appended_append, List.length_cons, Log.act, Log.append, List.length_append, List.length_singleton]
    omega
  | cleanup now => rfl

theorem perform_eq {config : StorageConfig} {c : Container α} {l : Log α} (h : Container.Mirrors config c l)
    {acts : List (Act α)} (hfew : l.entries.length + (Act.appended acts).length < 9223372036854775808) :
    perform c acts = some (c.perform acts) ∧ Fits (c.perform acts).1.ring := by
  induction acts generalizing c l with
  | nil => exact ⟨rfl, fits_of_mirrors h hfew⟩
  | cons a acts ih =>
    have hact := act_eq (fits_of_mirrors h (by omega)) a
    rw [← length_act config] at hfew
    obtain ⟨hrest, hfits⟩ := ih (Container.mirrors_act h a).1 hfew
    refine ⟨?_, hfits⟩
    simp only [perform, hact, hrest, Option.bind_eq_bind, Option.bind_some, Option.pure_def, Container.perform]

/-- whatever is asked of a container, at any sequence: words are enough for the answer -/
structure Suffice (c : Container α) : Prop where
  head : signed c.head = some c.head
  tail : signed c.tail = some c.tail
  size : size c.ring = some c.ring.size
  count : count c = some c.size
  remaining : remaining c = some c.remaining
  index : ∀ s, index c.ring s = some (c.ring.index s) ∧ c.ring.index s < c.ring.capacity
  read : ∀ s, read c.ring s = some (c.ring.read s)
  readOne : ∀ s, readOne c s = some (c.readOne s)
  checkPosition : ∀ s, checkPosition c s = some (c.checkPosition s)
  shouldWait : ∀ s, shouldWait c s = some (c.shouldWait s)
  /-- as long as a word counts the records that the batch has visited -/
  readMany : ∀ {β : Type} (s : Int) (b : Batch α β),
    (∀ b' n, c.readMany s b = .ok (b', n) → b'.visited < 18446744073709551616) →
      readMany c s b = some (c.readMany s b)

theorem suffice_of_fits {c : Container α} (h : Fits c.ring) : Suffice c := by
  refine ⟨head_eq h, tail_eq h, size_eq h, count_eq h, remaining_eq h, ?_, read_eq h, readOne_eq h, checkPosition_eq h,
    shouldWait_eq h, readMany_eq h⟩
  intro s
  exact ⟨index_eq h s, RingBuffer.index_lt _ _ h.room⟩

/-- **Machine words suffice.** A container with room can be created. Whatever is done to it, at any clock readings, as long
as fewer than `2 ^ 63` records are appended, it does in words what it does in whole numbers; and so does whatever is asked
of it then, at any sequence. -/
theorem words_suffice (key : JournalKey) (config : StorageConfig) (hroom : 0 < config.capacity) (acts : List (Act α))
    (hfew : (Act.appended acts).length < 9223372036854775808) :
    ∃ c : Container α, Container.create key config = .ok c ∧ perform c acts = some (c.perform acts) ∧
      Suffice (c.perform acts).1 := by
  obtain ⟨c, hcreate, hempty⟩ : ∃ c : Container α, Container.create key config = .ok c ∧
      Container.Mirrors config c Log.empty := Container.mirrors_create hroom
  have hlength : (Log.empty : Log α).entries.length + (Act.appended acts).length < 9223372036854775808 := by
    have hnone : (Log.empty : Log α).entries.length = 0 := rfl
    omega
  obtain ⟨hperform, hfits⟩ := perform_eq hempty hlength
  exact ⟨c, hcreate, hperform, suffice_of_fits hfits⟩

/-- the longest lifetime and the last moment of the clock -/
def lateActs : List (Act Char) :=
  [.append 'a' 18446744073709551615, .append 'b' 0, .append 'c' 18446744073709551615, .cleanup 4294967295000]

theorem words_suffice_late :
    let config : StorageConfig := { capacity := 2, ttlSeconds := 4294967295 }
    0 < config.capacity ∧ (Act.appended lateActs).length < 9223372036854775808 ∧
      ∃ c : Container Char, Container.create ⟨.map "orders", 0⟩ config = .ok c ∧
        perform c lateActs = some (c.perform lateActs) ∧ (c.perform lateActs).2 = [0, 1, 2, 1] ∧
        ((c.perform lateActs).1.ring.slot? 2).map Slot.expiresAt = some (some 18446744073709551615) ∧
        checkPosition (c.perform lateActs).1 (-9223372036854775808) =
          some (.error (.staleSequence (-9223372036854775808) 2)) ∧
        checkPosition (c.perform lateActs).1 9223372036854775807 =
          some (.error (.sequenceTooLarge 9223372036854775807 2)) := by
  intro config
  obtain ⟨c, hcreate, hperform, hsuffice⟩ :=
    words_suffice (α := Char) ⟨.map "orders", 0⟩ config (by decide) lateActs (by decide)
  have hnew : Container.create (α := Char) ⟨.map "orders", 0⟩ config =
      .ok ⟨⟨.map "orders", 0⟩, config, RingBuffer.empty 2⟩ := rfl
  obtain rfl := Except.ok.inj (hnew.symm.trans hcreate)
  refine ⟨by decide, by decide, _, hcreate, hperform, by decide, by decide, ?_, ?_⟩
  · rw [hsuffice.checkPosition]
    decide
  · rw [hsuffice.checkPosition]
    decide

end Words

end Changefeed
