/-
A container is an unbounded log of which a bounded stretch at the end is retained. Whatever is appended and cleaned up, at
whatever clock readings, forwards or backwards, the container gives the answers that the log gives, and tells of itself
what the log says (`Tells`).

The log knows nothing of slots: it keeps every entry, counts those given up from the front, gives up what exceeds the
capacity, and on a clean-up the longest expired stretch at the front of what is left.

Results:
- `mirrors_act`: each operation of a container is that operation of the log;
- `mirrors_perform`: so is every sequence of them;
- `Mirrors.steady`: a later state only gives up entries at the front and gets new ones at the end;
- `refines_log`: all of it, from the creation of a container on.
-/
import Changefeed.Proofs.Window

namespace Changefeed

/-- an operation on one container -/
inductive Act (α : Type) where
  | append (item : α) (now : ℕ)
  | cleanup (now : ℕ)

/-- the sequences that a series of operations gave out, read off its answers -/
def Act.given {α : Type} : List (Act α) → List Int → List Int
  | .append _ _ :: acts, n :: answers => n :: given acts answers
  | .cleanup _ :: acts, _ :: answers => given acts answers
  | _, _ => []

namespace Log

variable {α : Type}

/-- when an entry that is added at `now` expires: never without a time to live, and else when that is over, or at the last
moment that a clock of 64 bits can show -/
def deadline (ttlSeconds now : ℕ) : Option ℕ :=
  if ttlSeconds = 0 then none else some (min 18446744073709551615 (now + 1000 * ttlSeconds))

/-- the log after an operation, with its answer: the number of the new entry, or how many entries were given up -/
def act (config : StorageConfig) (l : Log α) : Act α → Log α × Int
  | .append item now =>
    (l.append config.capacity.toNat item (deadline config.ttlSeconds.toNat now), l.entries.length)
  | .cleanup now => (l.expire now, (l.overdue now).length)

/-- the log after a series of operations, with the answers -/
def perform (config : StorageConfig) (l : Log α) : List (Act α) → Log α × List Int
  | [] => (l, [])
  | a :: acts =>
    let (l, n) := l.act config a
    let (l, ns) := l.perform config acts
    (l, n :: ns)

/-- the second log has the entries of the first, and perhaps more; what the first gave up stays given up -/
structure Grows (l l' : Log α) : Prop where
  entries : l.entries <+: l'.entries
  dropped : l.dropped ≤ l'.dropped

theorem Grows.refl (l : Log α) : Grows l l := ⟨List.prefix_refl _, le_rfl⟩

theorem Grows.trans {l l' l'' : Log α} (h : Grows l l') (h' : Grows l' l'') : Grows l l'' :=
  ⟨h.entries.trans h'.entries, le_trans h.dropped h'.dropped⟩

theorem grows_act (config : StorageConfig) (l : Log α) (a : Act α) : Grows l (l.act config a).1 := by
  cases a with
  | append item now => exact ⟨List.prefix_append _ _, dropped_le_append _ l item _⟩
  | cleanup now => exact ⟨List.prefix_refl _, dropped_le_expire l now⟩

theorem grows_perform (config : StorageConfig) (l : Log α) (acts : List (Act α)) :
    Grows l (l.perform config acts).1 := by
  induction acts generalizing l with
  | nil => exact Grows.refl l
  | cons a acts ih => exact (grows_act config l a).trans (ih _)

/-- entries are numbered as they come -/
theorem given_perform (config : StorageConfig) (l : Log α) (acts : List (Act α)) :
    Act.given acts (l.perform config acts).2 =
      (List.range' l.entries.length ((l.perform config acts).1.entries.length - l.entries.length)).map Int.ofNat := by
  induction acts generalizing l with
  | nil => simp [Act.given, perform]
  | cons a acts ih =>
    have hle := (grows_perform config (l.act config a).1 acts).entries.length_le
    cases a with
    | append item now =>
      have hlen : (l.act config (.append item now)).1.entries.length = l.entries.length + 1 := by simp [act, Log.append]
      rw [hlen] at hle
      have hrange : (l.perform config (.append item now :: acts)).1.entries.length - l.entries.length =
          ((l.act config (.append item now)).1.perform config acts).1.entries.length - (l.entries.length + 1) + 1 := by
        show ((l.act config (.append item now)).1.perform config acts).1.entries.length - l.entries.length = _
        omega
      rw [hrange, List.range'_succ, List.map_cons, ← hlen, ← ih]
      rfl
    | cleanup now => exact ih _

end Log

namespace Container

variable {α : Type}

/-- the container after an operation, with its answer: the sequence of the new record, or how many records were dropped -/
def act (c : Container α) : Act α → Container α × Int
  | .append item now => c.append item now
  | .cleanup now => ((c.cleanup now).1, (c.cleanup now).2)

/-- the container after a series of operations, with the answers -/
def perform (c : Container α) : List (Act α) → Container α × List Int
  | [] => (c, [])
  | a :: acts =>
    let (c, n) := c.act a
    let (c, ns) := c.perform acts
    (c, n :: ns)

theorem perform_append (c : Container α) (acts more : List (Act α)) :
    (c.perform (acts ++ more)).1 = ((c.perform acts).1.perform more).1 := by
  induction acts generalizing c with
  | nil => rfl
  | cons a acts ih => exact ih _

/-! ## The container and its log -/

/-- the container holds what the log retains, in a ring of its capacity -/
structure Mirrors (config : StorageConfig) (c : Container α) (l : Log α) : Prop where
  settings : c.config = config
  ring : c.ring.Shows l
  capacity : c.ring.capacity = config.capacity.toNat
  /-- nothing expires without a time to live -/
  lasting : config.ttlSeconds.toNat = 0 → ∀ x ∈ l.entries, x.expiresAt = none

theorem expires_iff (config : StorageConfig) : config.expires = true ↔ config.ttlSeconds.toNat ≠ 0 := by
  have hlt : 0 < config.ttlSeconds ↔ 0 < config.ttlSeconds.toNat := UInt32.lt_iff_toNat_lt
  simp only [StorageConfig.expires, decide_eq_true_eq, hlt]
  omega

/-- a record expires when the log says -/
theorem expiry_eq_deadline (c : Container α) (now : ℕ) :
    c.expiry now = Log.deadline c.config.ttlSeconds.toNat now := by
  have hmax : clockMax = 18446744073709551615 := rfl
  unfold expiry Log.deadline
  by_cases h : c.config.ttlSeconds.toNat = 0
  · rw [if_pos h, if_neg fun he => (expires_iff c.config).1 he h]
  · rw [if_neg h, if_pos ((expires_iff c.config).2 h), hmax, Nat.mul_comm]

theorem mirrors_create {key : JournalKey} {config : StorageConfig} (h : 0 < config.capacity) :
    ∃ c : Container α, create key config = .ok c ∧ Mirrors config c Log.empty := by
  have hne : config.capacity ≠ 0 := by
    rintro h0
    rw [h0] at h
    exact absurd h (by decide)
  have hpos : 0 < config.capacity.toNat := UInt32.lt_iff_toNat_lt.1 h
  refine ⟨⟨key, config, RingBuffer.empty config.capacity.toNat⟩, if_neg hne, rfl, RingBuffer.shows_empty hpos, ?_, ?_⟩
  · exact RingBuffer.capacity_empty _
  · intro _ x hx
    cases hx

theorem mirrors_append {config : StorageConfig} {c : Container α} {l : Log α} (h : Mirrors config c l) (item : α)
    (now : ℕ) :
    Mirrors config (c.append item now).1 (l.act config (.append item now)).1 ∧
      (c.append item now).2 = l.entries.length := by
  have hexpiry := expiry_eq_deadline c now
  rw [h.settings] at hexpiry
  have hshows := RingBuffer.shows_add h.ring item (c.expiry now)
  rw [h.capacity, hexpiry] at hshows
  refine ⟨⟨h.settings, ?_, ?_, ?_⟩, ?_⟩
  · rw [append, hexpiry]
    exact hshows
  · exact (RingBuffer.capacity_add c.ring item _).trans h.capacity
  · intro httl x hx
    rcases List.mem_append.1 hx with hx | hx
    · exact h.lasting httl x hx
    · rw [List.mem_singleton.1 hx, Log.deadline, if_pos httl]
  · have htail := h.ring.tail
    show c.ring.tail + 1 = _
    omega

theorem overdue_of_lasting {l : Log α} (h : ∀ x ∈ l.entries, x.expiresAt = none) (now : ℕ) : l.overdue now = [] := by
  unfold Log.overdue
  cases hl : l.retained with
  | nil => rfl
  | cons x rest =>
    have hmem : x ∈ l.retained := hl ▸ List.mem_cons_self
    have hnone : x.expiresAt = none := h x (List.mem_of_mem_drop hmem)
    rw [List.takeWhile_cons_of_neg (by simp [hnone])]

theorem mirrors_cleanup {config : StorageConfig} {c : Container α} {l : Log α} (h : Mirrors config c l) (now : ℕ) :
    Mirrors config (c.cleanup now).1 (l.expire now) ∧
      (c.cleanup now).2 = (l.overdue now).length := by
  unfold cleanup
  cases hexpires : c.config.expires with
  | true =>
    obtain ⟨hshows, hcount⟩ := RingBuffer.shows_evictExpired h.ring now
    exact ⟨⟨h.settings, hshows, (RingBuffer.capacity_evictExpired c.ring now).trans h.capacity, h.lasting⟩, hcount⟩
  | false =>
    have httl : config.ttlSeconds.toNat = 0 := by
      by_contra hne
      rw [h.settings, (expires_iff config).2 hne] at hexpires
      cases hexpires
    have hnone := overdue_of_lasting (h.lasting httl) now
    have hsame : l.expire now = l := by simp [Log.expire, hnone]
    rw [hsame, hnone]
    exact ⟨h, rfl⟩

/-- **One operation of a container is that operation of its log**, with the same answer. -/
theorem mirrors_act {config : StorageConfig} {c : Container α} {l : Log α} (h : Mirrors config c l) (a : Act α) :
    Mirrors config (c.act a).1 (l.act config a).1 ∧ (c.act a).2 = (l.act config a).2 := by
  cases a with
  | append item now => exact mirrors_append h item now
  | cleanup now =>
    obtain ⟨hmirrors, hcount⟩ := mirrors_cleanup h now
    exact ⟨hmirrors, congrArg Int.ofNat hcount⟩

theorem mirrors_perform {config : StorageConfig} {c : Container α} {l : Log α} (h : Mirrors config c l)
    (acts : List (Act α)) :
    Mirrors config (c.perform acts).1 (l.perform config acts).1 ∧ (c.perform acts).2 = (l.perform config acts).2 := by
  induction acts generalizing c l with
  | nil => exact ⟨h, rfl⟩
  | cons a acts ih =>
    obtain ⟨hact, hanswer⟩ := mirrors_act h a
    obtain ⟨hrest, hanswers⟩ := ih hact
    refine ⟨hrest, ?_⟩
    show (c.act a).2 :: ((c.act a).1.perform acts).2 = (l.act config a).2 :: ((l.act config a).1.perform config acts).2
    rw [hanswer, hanswers]

/-! ## What a container tells -/

/-- what a container tells of itself is what the log says -/
structure Tells (config : StorageConfig) (c : Container α) (l : Log α) : Prop where
  head : c.head = l.dropped
  tail : c.tail = (l.entries.length : Int) - 1
  size : c.size + l.dropped = l.entries.length
  fits : c.size ≤ config.capacity.toNat
  remaining : c.remaining + c.size = config.capacity.toNat
  /-- a sequence can be read exactly if the log retains an entry of this number, and that entry is what is read -/
  reads : ∀ (s : Int) (a : α), c.readOne s = .ok a ↔
    ∃ n : ℕ, s = n ∧ l.dropped ≤ n ∧ (l.entries[n]?).map Slot.item = some a

theorem Mirrors.readOne {config : StorageConfig} {c : Container α} {l : Log α} (h : Mirrors config c l) (s : Int)
    (a : α) : c.readOne s = .ok a ↔ ∃ n : ℕ, s = n ∧ l.dropped ≤ n ∧ (l.entries[n]?).map Slot.item = some a := by
  have hhead := h.ring.head
  have htail := h.ring.tail
  unfold Container.readOne Container.tail
  by_cases hs : c.ring.tail < s
  · rw [if_pos hs]
    constructor
    · intro hno
      cases hno
    · rintro ⟨n, rfl, -, hn⟩
      rw [List.getElem?_eq_none (by omega)] at hn
      cases hn
  · rw [if_neg hs]
    by_cases hneg : s < 0
    · -- no entry has a negative number
      have hnone : c.ring.read s = none := by
        unfold RingBuffer.read
        rw [if_pos (Or.inl (by omega))]
      rw [hnone]
      constructor
      · intro hno
        cases hno
      · rintro ⟨n, rfl, -, -⟩
        omega
    · obtain ⟨n, rfl⟩ : ∃ n : ℕ, s = n := ⟨s.toNat, by omega⟩
      have hread := h.ring.read n
      unfold Log.get? at hread
      constructor
      · intro hok
        by_cases hd : n < l.dropped
        · rw [if_pos hd] at hread
          rw [hread] at hok
          cases hok
        · rw [if_neg hd] at hread
          refine ⟨n, rfl, by omega, ?_⟩
          rw [← hread]
          cases hr : c.ring.read n with
          | none => rw [hr] at hok; cases hok
          | some b => rw [hr] at hok; cases hok; rfl
      · rintro ⟨m, hm, hd, hitem⟩
        obtain rfl : n = m := by exact_mod_cast hm
        rw [if_neg (by omega), hitem] at hread
        rw [hread]

theorem Mirrors.tells {config : StorageConfig} {c : Container α} {l : Log α} (h : Mirrors config c l) :
    Tells config c l := by
  have hdropped := h.ring.dropped_le
  have hfits := h.ring.fits
  have hcapacity := h.capacity
  have hsize : c.size = l.entries.length - l.dropped := by
    rw [Container.size, h.ring.size, Int.toNat_natCast]
  refine ⟨h.ring.head, h.ring.tail, by omega, by omega, ?_, h.readOne⟩
  have hremaining : c.remaining = ((c.ring.capacity : Int) - (l.entries.length - l.dropped : ℕ)).toNat := by
    rw [Container.remaining, h.ring.size]
  omega

/-- nothing that was told before is taken back: head and tail do not go down, and a sequence that was given out and is
still retained denotes the record that it denoted -/
structure Steady (c c' : Container α) : Prop where
  head : c.head ≤ c'.head
  tail : c.tail ≤ c'.tail
  same : ∀ s, c'.head ≤ s → s ≤ c.tail → ∃ a, c.readOne s = .ok a ∧ c'.readOne s = .ok a

theorem Mirrors.steady {config : StorageConfig} {c c' : Container α} {l l' : Log α} (h : Mirrors config c l)
    (h' : Mirrors config c' l') (hgrows : l.Grows l') : Steady c c' := by
  have ht := h.tells
  have ht' := h'.tells
  obtain ⟨more, hmore⟩ := hgrows.entries
  have hdropped := hgrows.dropped
  have hlength := hgrows.entries.length_le
  have hhead := ht.head
  have hhead' := ht'.head
  have htail := ht.tail
  have htail' := ht'.tail
  refine ⟨by omega, by omega, ?_⟩
  intro s hs hs'
  obtain ⟨n, rfl⟩ : ∃ n : ℕ, s = n := ⟨s.toNat, by omega⟩
  have hlt : n < l.entries.length := by omega
  have hget : l'.entries[n]? = some l.entries[n] := by
    rw [← hmore, List.getElem?_append_left hlt, List.getElem?_eq_getElem hlt]
  refine ⟨l.entries[n].item, (ht.reads _ _).2 ⟨n, rfl, by omega, ?_⟩, (ht'.reads _ _).2 ⟨n, rfl, by omega, ?_⟩⟩
  · rw [List.getElem?_eq_getElem hlt]
    rfl
  · rw [hget]
    rfl

/-- **A container refines an unbounded log.** With room for a record it can be created, and after any operations, at any
clock readings:
- it gave the answers of the log: an append the number of the new entry, a clean-up the length of the longest expired
  stretch at the front of what is retained;
- it tells of itself what the log says;
- the sequences that it gave out are `0`, `1`, `2` and so on, none of them twice;
- whatever is done next, it takes nothing back. -/
theorem refines_log (key : JournalKey) (config : StorageConfig) (hroom : 0 < config.capacity) :
    ∃ c : Container α, create key config = .ok c ∧ ∀ acts : List (Act α),
      let l := Log.empty.perform config acts
      (c.perform acts).2 = l.2 ∧ Tells config (c.perform acts).1 l.1 ∧
        Act.given acts (c.perform acts).2 = (List.range l.1.entries.length).map Int.ofNat ∧
        ∀ more, Steady (c.perform acts).1 (c.perform (acts ++ more)).1 := by
  obtain ⟨c, hcreate, hempty⟩ : ∃ c : Container α, create key config = .ok c ∧ Mirrors config c Log.empty :=
    mirrors_create hroom
  refine ⟨c, hcreate, fun acts => ?_⟩
  obtain ⟨hmirrors, hanswers⟩ := mirrors_perform hempty acts
  refine ⟨hanswers, hmirrors.tells, ?_, fun more => ?_⟩
  · rw [hanswers, Log.given_perform, List.range_eq_range']
    rfl
  · rw [perform_append]
    exact hmirrors.steady (mirrors_perform hmirrors more).1 (Log.grows_perform config _ more)

/-- two records for a second each: the third overwrites the first, a late clean-up empties the ring, and the clock goes
back before the next record is added -/
def wornActs : List (Act Char) :=
  [.append 'a' 5000, .append 'b' 0, .append 'c' 3000, .cleanup 1500, .cleanup 18446744073709551615, .append 'd' 7]

theorem refines_log_worn :
    let config : StorageConfig := { capacity := 2, ttlSeconds := 1 }
    let l := Log.empty.perform config wornActs
    0 < config.capacity ∧ l.2 = [0, 1, 2, 1, 1, 3] ∧ l.1.dropped = 3 ∧ l.1.entries.length = 4 ∧
      ∃ c : Container Char, create ⟨.map "orders", 0⟩ config = .ok c ∧ (c.perform wornActs).2 = l.2 ∧
        Tells config (c.perform wornActs).1 l.1 ∧ Act.given wornActs (c.perform wornActs).2 = [0, 1, 2, 3] := by
  intro config l
  obtain ⟨c, hcreate, hall⟩ := refines_log (α := Char) ⟨.map "orders", 0⟩ config (by decide)
  obtain ⟨hanswers, htells, hgiven, -⟩ := hall wornActs
  exact ⟨by decide, by decide, by decide, by decide, c, hcreate, hanswers, htells, hgiven⟩

end Container

end Changefeed
