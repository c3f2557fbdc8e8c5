/-
How far a scan gets. From a position that is accepted it offers record after record to the batch, and ends at the first sequence
at which the batch holds all that it may, or just behind the tail. How many items the batch holds on the way can be told without
running the scan: those that it held before, and the records that pass its filter (`Batch.heldAt`). The scan works on the batch in
place; a batch whose scan is refused is what it was.

Results:
- `size_visit`: what a batch holds after a stretch, counted;
- `Records.scanned`: a scan ends at the least sequence at which it may end, and adds what lies before it;
- `readMany_exact`: so does every scan of every container, or it is refused and leaves the batch alone.
-/
import Changefeed.Proofs.Ranges

namespace Changefeed

namespace Batch

variable {α β : Type}

/-- how many items a batch holds when it was offered the records from `s` up to `n` -/
def heldAt (past : List α) (b : Batch α β) (s n : ℕ) : ℕ :=
  b.kept.size + ((past.drop s).take (n - s)).countP fun a => b.filter.all fun p => p a

theorem length_items (b : Batch α β) : b.items.length = b.kept.size := by
  rw [items, List.length_map, Array.length_toList]

theorem size_visit {past : List α} (b : Batch α β) {s k : ℕ} (h : s + k ≤ past.length) :
    (b.visit past (List.range' s k)).kept.size = b.heldAt past s (s + k) := by
  rw [← length_items, items_visit b h, List.length_append, List.length_map, length_items, heldAt, Nat.add_sub_cancel_left,
    List.countP_eq_length_filter, keeps_eq]

end Batch

namespace Container

variable {α β : Type} {c : Container α} {past : List α}

/-- a scan of the records that were given, from `s` to `n`, makes of the batch `b` the batch `r` -/
structure Scanned (past : List α) (c : Container α) (b : Batch α β) (s n : ℕ) (r : Batch α β) : Prop where
  /-- it ends as soon as it may: just behind the tail, or where the batch holds all that it may -/
  least : IsLeast {m : ℕ | s ≤ m ∧ (m : Int) ≤ c.tail + 1 ∧
    ((m : Int) = c.tail + 1 ∨ b.heldAt past s m = b.maxSize)} n
  /-- the records before the end are those that can be read there -/
  reads : ∀ t, s ≤ t → t < n → ∃ a, past[t]? = some a ∧ c.readOne t = .ok a
  items : r.items = b.items ++ (((past.drop s).take (n - s)).filter fun a => b.filter.all fun p => p a).map b.project
  sequences : r.sequences =
    b.sequences ++ ((List.range' s (n - s)).filter fun t => past[t]?.any fun a => b.filter.all fun p => p a).map Int.ofNat
  visited : r.visited = b.visited + (n - s)
  next : r.next = n
  paired : r.items.length = r.sequences.length
  room : r.items.length ≤ b.maxSize
  terms : Batch.SameTerms b r

/-- **A scan is exact**: from a position that is accepted it ends as soon as it may, and adds what lies before its end. -/
theorem Records.scanned (h : c.Records past) {s : ℕ} {b : Batch α β} (hs : c.head ≤ s) (hs' : s ≤ past.length)
    (hb : b.kept.size ≤ b.maxSize) : ∃ n r, c.readMany s b = .ok (r, n - s) ∧ Scanned past c b s n r := by
  have htail := h.tail
  obtain ⟨k, hk, hread, hstop, hroom⟩ := readMany_visit h b hs hs'
  have hheld : ∀ j ≤ k, (b.visit past (List.range' s j)).kept.size = b.heldAt past s (s + j) :=
    fun j hj => Batch.size_visit b (by omega)
  have hfull : ∀ j ≤ k, (b.visit past (List.range' s j)).full = true ↔ b.maxSize ≤ b.heldAt past s (s + j) := by
    intro j hj
    rw [← hheld j hj, Batch.full, (Batch.sameTerms_visit past b _).maxSize, decide_eq_true_iff]
  have hsize := Batch.size_visit_le hb hroom
  have hsub : s + k - s = k := Nat.add_sub_cancel_left s k
  have hterms := Batch.sameTerms_visit past b (List.range' s k)
  refine ⟨s + k, { b.visit past (List.range' s k) with next := ((s + k : ℕ) : Int) }, by rw [hread, hsub],
    ⟨⟨by omega, by omega, ?_⟩, ?_⟩, ?_, ?_, ?_, ?_, rfl, ?_, ?_,
    ⟨hterms.minSize, hterms.maxSize, hterms.filter, hterms.project⟩⟩
  · rcases hstop with hend | hstop
    · exact Or.inl (by omega)
    · exact Or.inr (le_antisymm (hheld k le_rfl ▸ hsize) ((hfull k le_rfl).1 hstop))
  · -- where the scan went on, the batch had room
    rintro m ⟨hm, -, hend⟩
    by_contra hlt
    have hroom' := hroom (m - s) (by omega)
    rw [← Bool.not_eq_true, hfull (m - s) (by omega), Nat.add_sub_cancel' hm] at hroom'
    rcases hend with hend | hend <;> omega
  · intro t ht ht'
    have hget : past[t]? = some past[t] := List.getElem?_eq_getElem (by omega)
    exact ⟨past[t], hget, h.readOne (by omega) hget⟩
  · rw [hsub, ← Batch.keeps_eq]
    exact Batch.items_visit b hk
  · rw [hsub, ← Batch.keeps_eq]
    exact Batch.sequences_visit past b s k
  · rw [Batch.visited_visit b fun t ht => by have := (List.mem_range'_1.1 ht).2; omega, List.length_range', hsub]
  · rw [Batch.items, Batch.sequences, List.length_map, List.length_map]
  · rw [Batch.length_items]
    exact hsize

/-- **A read does exactly one bounded scan.** After any operations on a container, of any position, and of any batch that is not
overfull, with whatever it holds already: a position beyond the sequence to be written next, or before the head, is refused, and
the batch is left as it was. From any other position the records up to `n` are visited, where `n` is the least sequence that lies
just behind the tail or at which the batch holds all that it may; the batch is then what these records make of it. To the journals
of a feed a read is nothing but that, and the feed stays as it is. -/
theorem readMany_exact {acts : List (Act α)} (h : c.Underwent acts) (begin : Int) (b : Batch α β)
    (hb : b.kept.size ≤ b.maxSize) :
    let scan := (c.readManyInPlace begin).run.run b
    (c.tail + 1 < begin → scan = (.error (.sequenceTooLarge begin c.tail), b)) ∧
    (begin < c.head → scan = (.error (.staleSequence begin c.head), b)) ∧
    (c.head ≤ begin → begin ≤ c.tail + 1 → ∃ (s n : ℕ) (r : Batch α β), begin = s ∧
      scan = (.ok (n - s), r) ∧ Scanned (Act.items acts) c b s n r) ∧
    (scan = match c.readMany begin b with
      | .ok (r, n) => (.ok n, r)
      | .error e => (.error e, b)) ∧
    ∀ (γ : Type) (f : Feed γ) (key : JournalKey) (d : Container EventRecord), f.registered = true →
      f.store.live? key = some d → ∀ r : Batch EventRecord β, f.readMany key begin r = (f, d.readMany begin r) := by
  intro scan
  have hrecords := h.records
  have hscan : scan = match c.readMany begin b with
      | .ok (r, n) => (.ok n, r)
      | .error e => (.error e, b) := readManyInPlace_run c begin b
  refine ⟨?_, ?_, ?_, hscan, ?_⟩
  · intro hs
    rw [hscan, readMany_error_iff.2 (checkPosition_beyond hs)]
  · intro hs
    rw [hscan, readMany_error_iff.2 (checkPosition_lost hrecords.head_le hs)]
  · intro hs hs'
    have htail := hrecords.tail
    obtain ⟨s, rfl⟩ := hrecords.natural hs
    obtain ⟨n, r, hread, hscanned⟩ := hrecords.scanned hs (by omega) hb
    exact ⟨s, n, r, rfl, by rw [hscan, hread], hscanned⟩
  · exact fun γ f key d hr hl r => Feed.query_live hr hl _

/-- six records into a ring of four -/
def sixActs : List (Act Char) := ['a', 'b', 'c', 'd', 'e', 'f'].map fun a => .append a 0

/-- a ring that went round -/
def sixLetters : Container Char := (perform ⟨Feed.ordersKey, { capacity := 4 }, .empty 4⟩ sixActs).1

theorem underwent_sixLetters : sixLetters.Underwent sixActs := ⟨Feed.ordersKey, { capacity := 4 }, _, rfl, rfl⟩

/-- holds an item of some earlier scan, has room for two more, and leaves out one of the letters -/
def pickyLetters : Batch Char ℕ := ⟨0, 3, some (· ≠ 'd'), Char.toNat, #[(9, 1)], 5, 7⟩

/-- the read ends at the fifth record, at which the batch is full, and leaves the sixth; from a position on either side the batch
is left alone -/
theorem readMany_exact_letters :
    let f : Feed Data := (Feed.run .ok (Feed.init Feed.smallResolver true) [Feed.addOrder 0]).1
    (∃ r : Batch Char ℕ, sixLetters.head = 2 ∧ sixLetters.tail = 5 ∧
      (sixLetters.readManyInPlace 7).run.run pickyLetters = (.error (.sequenceTooLarge 7 5), pickyLetters) ∧
      (sixLetters.readManyInPlace 1).run.run pickyLetters = (.error (.staleSequence 1 2), pickyLetters) ∧
      (sixLetters.readManyInPlace 2).run.run pickyLetters = (.ok 3, r) ∧
      Scanned (Act.items sixActs) sixLetters pickyLetters 2 5 r ∧
      r.sequences = [9, 2, 4] ∧ r.items = [1, 99, 101]) ∧
    ∃ d, f.registered = true ∧ f.store.live? Feed.ordersKey = some d ∧
      ∀ b : Batch EventRecord ℕ, f.readMany Feed.ordersKey 0 b = (f, d.readMany 0 b) := by
  intro f
  have hb : pickyLetters.kept.size ≤ pickyLetters.maxSize := by decide
  have hhead : sixLetters.head = 2 := by decide
  have htail : sixLetters.tail = 5 := by decide
  have hcount : ((sixLetters.readManyInPlace 2).run.run pickyLetters).1.toOption = some 3 := by decide +kernel
  obtain ⟨hbeyond, -⟩ := readMany_exact underwent_sixLetters 7 pickyLetters hb
  obtain ⟨-, hlost, -⟩ := readMany_exact underwent_sixLetters 1 pickyLetters hb
  obtain ⟨-, -, hscans, -⟩ := readMany_exact underwent_sixLetters 2 pickyLetters hb
  obtain ⟨-, -, -, -, hfeed⟩ := readMany_exact underwent_sixLetters 0 pickyLetters hb
  rw [htail] at hbeyond
  rw [hhead] at hlost
  obtain ⟨s, n, r, hs, hread, hscanned⟩ := hscans (by decide) (by decide)
  obtain rfl : s = 2 := by exact_mod_cast hs.symm
  obtain rfl : n = 5 := by
    rw [hread] at hcount
    have hn : n - 2 = 3 := Option.some.inj hcount
    omega
  obtain ⟨d, hd⟩ := Option.isSome_iff_exists.1 (show (f.store.live? Feed.ordersKey).isSome = true from rfl)
  exact ⟨⟨r, hhead, htail, hbeyond (by decide), hlost (by decide), hread, hscanned, hscanned.sequences.trans (by decide),
    hscanned.items.trans (by decide)⟩, d, rfl, hd, hfeed Data f Feed.ordersKey d rfl hd⟩

end Container

end Changefeed
