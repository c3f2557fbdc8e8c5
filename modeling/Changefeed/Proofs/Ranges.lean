/-
Where a sequence stands to a container. There are four zones: what is no longer retained, what can be read, the sequence that
is written next, and everything beyond. Each of the checks and reads of a container draws these lines for itself, and they all
draw the same ones.

They do so because the head is never more than one behind the tail, and every sequence from the head to the tail has its
record: that is so after any operations on a container.

Results:
- `zone_unique`: a sequence lies in exactly one zone;
- `readMany_readable`: a scan begins with the record that is read there;
- `range_checks_agree`: all views of a container follow the zone, and those of a feed are those of the container.
-/
import Changefeed.Proofs.Lifetime

namespace Changefeed

/-- where a sequence can stand to a container -/
inductive Zone where
  /-- before the head -/
  | lost
  | readable
  /-- just behind the tail: the next to be written -/
  | upcoming
  | beyond
deriving DecidableEq, Repr

/-- the sequence stands there -/
def Zone.Holds {α : Type} (c : Container α) (s : Int) : Zone → Prop
  | .lost => s < c.head
  | .readable => c.head ≤ s ∧ s ≤ c.tail
  | .upcoming => s = c.tail + 1
  | .beyond => c.tail + 1 < s

namespace Container

variable {α β : Type} {c : Container α} {s : Int}

theorem zone_unique (h : c.head ≤ c.tail + 1) (s : Int) : ∃! zone : Zone, zone.Holds c s := by
  have hcases : s < c.head ∨ (c.head ≤ s ∧ s ≤ c.tail) ∨ s = c.tail + 1 ∨ c.tail + 1 < s := by omega
  rcases hcases with hs | hs | hs | hs
  · refine ⟨.lost, hs, fun zone hz => ?_⟩
    cases zone <;> simp only [Zone.Holds, reduceCtorEq] at hz ⊢ <;> omega
  · refine ⟨.readable, hs, fun zone hz => ?_⟩
    cases zone <;> simp only [Zone.Holds, reduceCtorEq] at hz ⊢ <;> omega
  · refine ⟨.upcoming, hs, fun zone hz => ?_⟩
    cases zone <;> simp only [Zone.Holds, reduceCtorEq] at hz ⊢ <;> omega
  · refine ⟨.beyond, hs, fun zone hz => ?_⟩
    cases zone <;> simp only [Zone.Holds, reduceCtorEq] at hz ⊢ <;> omega

/-! ## The checks -/

theorem checkPosition_lost (h : c.head ≤ c.tail + 1) (hs : s < c.head) :
    c.checkPosition s = .error (.staleSequence s c.head) := by
  rw [checkPosition, if_neg (by omega), if_pos hs]

theorem checkPosition_beyond (hs : c.tail + 1 < s) : c.checkPosition s = .error (.sequenceTooLarge s c.tail) :=
  if_pos hs

theorem shouldWait_iff : c.shouldWait s = true ↔ c.tail < s := decide_eq_true_iff

/-! ## One record -/

theorem readOne_lost (h : c.head ≤ c.tail + 1) (hs : s < c.head) : c.readOne s = .error (.staleSequence s c.head) := by
  have hread : c.ring.read s = none := if_pos (Or.inl hs)
  rw [readOne, if_neg (by omega), hread]

theorem readOne_behind (hs : c.tail < s) : c.readOne s = .error (.sequenceTooLarge s c.tail) := if_pos hs

/-- what is retained can be read -/
theorem Records.readable {past : List α} (h : c.Records past) (hs : c.head ≤ s) (hs' : s ≤ c.tail) :
    ∃ a, c.ring.read s = some a ∧ c.readOne s = .ok a := by
  have htail := h.tail
  obtain ⟨n, rfl⟩ := h.natural hs
  have hlt : n < past.length := by omega
  have hget := List.getElem?_eq_getElem hlt
  exact ⟨past[n], by rw [h.read hs, hget], h.readOne hs hget⟩

/-! ## Scans -/

/-- a scan into a batch that is full visits nothing -/
theorem readMany_full (hs : c.head ≤ s) (hs' : s ≤ c.tail + 1) {b : Batch α β} (hb : b.full = true) :
    c.readMany s b = .ok ({ b with next := s }, 0) := by
  rw [readMany_eq hs hs', offerFrom_full c.ring _ s hb, Nat.sub_self]

/-- a scan from just behind the tail visits nothing -/
theorem readMany_upcoming (h : c.head ≤ c.tail + 1) (b : Batch α β) :
    c.readMany (c.tail + 1) b = .ok ({ b with next := c.tail + 1 }, 0) := by
  rw [readMany_eq h le_rfl, sub_self, Int.toNat_zero, offerFrom, Nat.sub_self]

/-- a scan that has room begins with the record that can be read there, and goes on behind it -/
theorem readMany_readable (hs : c.head ≤ s) (hs' : s ≤ c.tail) {a : α} (hread : c.ring.read s = some a)
    {b : Batch α β} (hroom : b.full = false) :
    c.readMany s b = (c.readMany (s + 1) (b.offer s a)).map fun r => (r.1, r.2 + 1) := by
  obtain ⟨n, hn⟩ : ∃ n : ℕ, (c.tail + 1 - s).toNat = n + 1 := ⟨(c.tail - s).toNat, by omega⟩
  have hn' : (c.tail + 1 - (s + 1)).toNat = n := by omega
  have hstep : offerFrom c.ring (n + 1) s b = offerFrom c.ring n (s + 1) (b.offer s a) := by
    rw [offerFrom_succ c.ring n s hroom, hread]
    rfl
  have hcount : (offerFrom c.ring n (s + 1) (b.offer s a)).1.visited - b.visited =
      (offerFrom c.ring n (s + 1) (b.offer s a)).1.visited - (b.offer s a).visited + 1 := by
    have hle := (offerFrom_bounds c.ring n (s + 1) (b.offer s a)).2.2
    rw [Batch.visited_offer] at hle ⊢
    omega
  rw [readMany_eq hs (by omega), readMany_eq (show c.head ≤ s + 1 by omega) (by omega), hn, hn', hstep, hcount]
  rfl

/-! ## All of them together -/

/-- what the views of a container say of a sequence in a zone; those of a scan are said of every batch -/
def Agrees (c : Container α) (s : Int) : Zone → Prop
  | .lost =>
    c.checkPosition s = .error (.staleSequence s c.head) ∧ c.shouldWait s = false ∧
      c.readOne s = .error (.staleSequence s c.head) ∧
      ∀ (β : Type) (b : Batch α β), c.readMany s b = .error (.staleSequence s c.head)
  | .readable =>
    c.checkPosition s = .ok () ∧ c.shouldWait s = false ∧ ∃ a, c.readOne s = .ok a ∧
      ∀ (β : Type) (b : Batch α β),
        (b.full = true → c.readMany s b = .ok ({ b with next := s }, 0)) ∧
        (b.full = false → c.readMany s b = (c.readMany (s + 1) (b.offer s a)).map fun r => (r.1, r.2 + 1))
  | .upcoming =>
    c.checkPosition s = .ok () ∧ c.shouldWait s = true ∧ c.readOne s = .error (.sequenceTooLarge s c.tail) ∧
      ∀ (β : Type) (b : Batch α β), c.readMany s b = .ok ({ b with next := s }, 0)
  | .beyond =>
    c.checkPosition s = .error (.sequenceTooLarge s c.tail) ∧ c.shouldWait s = true ∧
      c.readOne s = .error (.sequenceTooLarge s c.tail) ∧
      ∀ (β : Type) (b : Batch α β), c.readMany s b = .error (.sequenceTooLarge s c.tail)

theorem Records.agrees {past : List α} (h : c.Records past) : ∀ zone : Zone, zone.Holds c s → Agrees c s zone := by
  have hle := h.head_le
  intro zone hz
  cases zone with
  | lost =>
    have hs : s < c.head := hz
    have hcheck := checkPosition_lost hle hs
    refine ⟨hcheck, ?_, readOne_lost hle hs, fun β b => readMany_error_iff.2 hcheck⟩
    rw [← Bool.not_eq_true, shouldWait_iff]
    omega
  | readable =>
    obtain ⟨hs, hs'⟩ : c.head ≤ s ∧ s ≤ c.tail := hz
    obtain ⟨a, hread, hone⟩ := h.readable hs hs'
    refine ⟨checkPosition_ok_iff.2 ⟨hs, by omega⟩, ?_, a, hone, fun β b => ⟨?_, ?_⟩⟩
    · rw [← Bool.not_eq_true, shouldWait_iff]
      omega
    · exact readMany_full hs (by omega)
    · exact readMany_readable hs hs' hread
  | upcoming =>
    obtain rfl : s = c.tail + 1 := hz
    refine ⟨checkPosition_ok_iff.2 ⟨hle, le_rfl⟩, shouldWait_iff.2 (by omega), readOne_behind (by omega), ?_⟩
    exact fun β b => readMany_upcoming hle b
  | beyond =>
    have hs : c.tail + 1 < s := hz
    have hcheck := checkPosition_beyond hs
    exact ⟨hcheck, shouldWait_iff.2 (by omega), readOne_behind (by omega), fun β b => readMany_error_iff.2 hcheck⟩

/-- the views of a container agree on a sequence -/
structure Consistent (c : Container α) (s : Int) : Prop where
  /-- it lies in exactly one zone -/
  zone : ∃! zone : Zone, zone.Holds c s
  /-- and every view follows from that zone -/
  views : ∀ zone : Zone, zone.Holds c s → Agrees c s zone
  /-- so where a reader need not wait, a scan gets it on -/
  progress : c.checkPosition s = .ok () → c.shouldWait s = false → ∀ (β : Type) (b : Batch α β), b.full = false →
    ∃ b' n, c.readMany s b = .ok (b', n) ∧ 0 < n ∧ s < b'.next

theorem Records.consistent {past : List α} (h : c.Records past) (s : Int) : Consistent c s := by
  refine ⟨zone_unique h.head_le s, h.agrees, ?_⟩
  intro hcheck hwait β b hroom
  obtain ⟨hs, -⟩ := checkPosition_ok_iff.1 hcheck
  rw [← Bool.not_eq_true, shouldWait_iff, not_lt] at hwait
  obtain ⟨a, hread, -⟩ := h.readable hs hwait
  rw [readMany_readable hs hwait hread hroom, readMany_eq (show c.head ≤ s + 1 by omega) (by omega)]
  refine ⟨_, _, rfl, Nat.succ_pos _, ?_⟩
  exact lt_of_lt_of_le (lt_add_one s) (offerFrom_bounds c.ring _ (s + 1) (b.offer s a)).1

end Container

namespace Feed

/-- **The range checks agree.** After any operations on a container, a sequence lies in one of the four zones, and all views of the
container say what that zone says. The journals of a feed are such containers, after any run; and where the store service is
there, the feed checks a sequence as the container does. -/
theorem range_checks_agree (s : Int) :
    (∀ (α : Type) (c : Container α) (acts : List (Act α)), c.Underwent acts → Container.Consistent c s) ∧
    ∀ (ω β : Type) (encode : ω → Except WireError Data) (resolver : Resolver) (registered : Bool) (ops : List (Op ω β))
      (key : JournalKey) (c : Container EventRecord),
      let f : Feed β := (run encode (init resolver registered) ops).1
      f.registered = true → f.store.live? key = some c →
        Container.Consistent c s ∧ f.checkPosition key s = (f, c.checkPosition s) ∧
          f.shouldWait key s = (f, .ok (c.shouldWait s)) := by
  refine ⟨fun α c acts h => h.records.consistent s, ?_⟩
  intro ω β encode resolver registered ops key c f hr hl
  obtain ⟨acts, hunderwent⟩ := underwent_of_live encode resolver registered ops hl
  exact ⟨hunderwent.records.consistent s, query_live hr hl _, query_live hr hl _⟩

/-- the last of four records is readable where it alone is left, and upcoming where three were written -/
theorem range_checks_agree_fourth :
    let f : Feed Data := (run .ok (init smallResolver true) [addOrder 0, addOrder 1, addOrder 2]).1
    (∃ c : Container Char, c.Underwent Container.wornActs ∧ Zone.readable.Holds c 3 ∧ Container.Agrees c 3 .readable) ∧
    ∃ c, f.registered = true ∧ f.store.live? ordersKey = some c ∧ Zone.upcoming.Holds c 3 ∧
      Container.Agrees c 3 .upcoming ∧ f.checkPosition ordersKey 3 = (f, .ok ()) ∧
      f.shouldWait ordersKey 3 = (f, .ok true) := by
  intro f
  obtain ⟨hcontainers, hfeeds⟩ := range_checks_agree 3
  refine ⟨?_, ?_⟩
  · let c : Container Char := (Container.perform ⟨ordersKey, { capacity := 2, ttlSeconds := 1 }, .empty 2⟩ Container.wornActs).1
    have hunderwent : c.Underwent Container.wornActs := ⟨ordersKey, { capacity := 2, ttlSeconds := 1 }, _, rfl, rfl⟩
    have hzone : Zone.readable.Holds c 3 := ⟨by decide, by decide⟩
    exact ⟨c, hunderwent, hzone, (hcontainers Char c _ hunderwent).views .readable hzone⟩
  · have hl : (f.store.live? ordersKey).isSome = true := rfl
    obtain ⟨c, hc⟩ := Option.isSome_iff_exists.1 hl
    have hzone : Zone.upcoming.Holds c 3 := by
      cases hc
      exact (rfl : (3 : Int) = 3)
    obtain ⟨hconsistent, hcheck, hwait⟩ := hfeeds Data Data .ok smallResolver true _ ordersKey c rfl hc
    have hagrees := hconsistent.views .upcoming hzone
    rw [hagrees.1] at hcheck
    rw [hagrees.2.1] at hwait
    exact ⟨c, rfl, hc, hzone, hagrees, hcheck, hwait⟩

end Feed

end Changefeed
