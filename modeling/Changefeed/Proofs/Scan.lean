/-
What a scan does to a batch, told by the sequences it visits. `Batch.visit` offers the records under a list of
sequences, one after the other; a scan visits a stretch of consecutive sequences, and ends at the tail or at the first
one at which the batch is full.

Results:
- `readMany_visit`: a scan from a retained sequence, or from the one just behind the tail, is such a visit;
- `kept_visit`, `visited_visit`, `next_visit`: what a batch holds after a visit;
- `size_visit_le`: a scan never overfills a batch;
- `readManyInPlace_run`: a scan in place is the same scan, and a batch that is refused stays as it was.
-/
import Changefeed.Proofs.Window

namespace Changefeed

namespace Batch

variable {α β : Type}

/-- offers the record under one sequence, if there is one -/
def look (past : List α) (b : Batch α β) (s : ℕ) : Batch α β :=
  match past[s]? with
  | some a => b.offer s a
  | none => b

/-- offers the records under these sequences, in this order -/
def visit (past : List α) (b : Batch α β) (seqs : List ℕ) : Batch α β := seqs.foldl (look past) b

/-- what a batch keeps of the record under a sequence -/
def pick? (past : List α) (b : Batch α β) (s : ℕ) : Option (Int × β) :=
  (past[s]?.filter b.keeps).map fun a => ((s : Int), b.project a)

theorem fresh_eq {minSize maxSize : ℕ} {filter : Option (α → Bool)} {project : α → β} {b : Batch α β}
    (h : fresh minSize maxSize filter project = .ok b) :
    b = ⟨minSize, maxSize, filter, project, #[], 0, 0⟩ ∧ 0 < maxSize ∧ minSize ≤ maxSize := by
  unfold fresh at h
  split at h
  · cases h
  · split at h
    · cases h
    · cases h
      exact ⟨rfl, by omega, by omega⟩

theorem full_fresh {minSize maxSize : ℕ} {filter : Option (α → Bool)} {project : α → β} {b : Batch α β}
    (h : fresh minSize maxSize filter project = .ok b) : b.full = false := by
  obtain ⟨rfl, hpos, -⟩ := fresh_eq h
  simp [full]
  omega

/-! ## One record -/

/-- a visit changes what a batch holds, not what it asks for -/
structure SameTerms (b b' : Batch α β) : Prop where
  minSize : b'.minSize = b.minSize
  maxSize : b'.maxSize = b.maxSize
  filter : b'.filter = b.filter
  project : b'.project = b.project

theorem SameTerms.refl (b : Batch α β) : SameTerms b b := ⟨rfl, rfl, rfl, rfl⟩

theorem SameTerms.trans {a b c : Batch α β} (h : SameTerms a b) (h' : SameTerms b c) : SameTerms a c :=
  ⟨h'.minSize.trans h.minSize, h'.maxSize.trans h.maxSize, h'.filter.trans h.filter, h'.project.trans h.project⟩

theorem SameTerms.keeps {b b' : Batch α β} (h : SameTerms b b') : b'.keeps = b.keeps := by
  funext a
  simp only [Batch.keeps, h.filter]

/-- offers what is found under a sequence, if there is anything -/
def offer? (b : Batch α β) (s : Int) (found : Option α) : Batch α β := found.elim b (b.offer s)

theorem sameTerms_offer? (b : Batch α β) (s : Int) (found : Option α) : SameTerms b (b.offer? s found) := by
  cases found with
  | none => exact SameTerms.refl b
  | some a => exact ⟨rfl, rfl, rfl, rfl⟩

theorem visited_le_offer? (b : Batch α β) (s : Int) (found : Option α) : b.visited ≤ (b.offer? s found).visited := by
  cases found with
  | none => exact le_rfl
  | some a => exact Nat.le_succ _

theorem size_offer?_le (b : Batch α β) (s : Int) (found : Option α) :
    (b.offer? s found).kept.size ≤ b.kept.size + 1 := by
  cases found with
  | none => exact Nat.le_succ _
  | some a =>
    simp only [offer?, Option.elim_some, offer]
    split <;> simp

/-- looking under a sequence is offering what was given under it -/
theorem look_eq (past : List α) (b : Batch α β) (s : ℕ) : b.look past s = b.offer? s past[s]? := by
  unfold look
  cases past[s]? <;> rfl

theorem sameTerms_look (past : List α) (b : Batch α β) (s : ℕ) : SameTerms b (b.look past s) :=
  look_eq past b s ▸ sameTerms_offer? b s past[s]?

theorem kept_look (past : List α) (b : Batch α β) (s : ℕ) :
    (b.look past s).kept.toList = b.kept.toList ++ (b.pick? past s).toList := by
  unfold look pick?
  cases hs : past[s]? with
  | none => simp
  | some a => cases hk : b.keeps a <;> simp [offer, hk, Option.filter]

theorem size_look_le (past : List α) (b : Batch α β) (s : ℕ) : (b.look past s).kept.size ≤ b.kept.size + 1 :=
  look_eq past b s ▸ size_offer?_le b s past[s]?

/-! ## A visit -/

@[simp] theorem visit_nil (past : List α) (b : Batch α β) : b.visit past [] = b := rfl

@[simp] theorem visit_cons (past : List α) (b : Batch α β) (s : ℕ) (seqs : List ℕ) :
    b.visit past (s :: seqs) = (b.look past s).visit past seqs := rfl

theorem visit_append (past : List α) (b : Batch α β) (seqs seqs' : List ℕ) :
    b.visit past (seqs ++ seqs') = (b.visit past seqs).visit past seqs' := List.foldl_append

/-- two stretches, the second where the first ends, are one stretch -/
theorem visit_range' (past : List α) (b : Batch α β) (s m n : ℕ) :
    (b.visit past (List.range' s m)).visit past (List.range' (s + m) n) = b.visit past (List.range' s (m + n)) := by
  rw [← visit_append, List.range'_append_1]

/-- only the records under the visited sequences matter -/
theorem visit_congr {past past' : List α} (b : Batch α β) {seqs : List ℕ}
    (h : ∀ s ∈ seqs, past[s]? = past'[s]?) : b.visit past seqs = b.visit past' seqs := by
  induction seqs generalizing b with
  | nil => rfl
  | cons s seqs ih =>
    have hs : b.look past s = b.look past' s := by simp only [look, h s List.mem_cons_self]
    rw [visit_cons, visit_cons, hs]
    exact ih _ fun t ht => h t (List.mem_cons_of_mem s ht)

/-- records that are written later do not change what an earlier visit saw -/
theorem visit_extend {past : List α} (more : List α) (b : Batch α β) {s k : ℕ} (hk : s + k ≤ past.length) :
    b.visit (past ++ more) (List.range' s k) = b.visit past (List.range' s k) := by
  refine visit_congr b fun t ht => List.getElem?_append_left ?_
  have := (List.mem_range'_1.1 ht).2
  omega

theorem sameTerms_visit (past : List α) (b : Batch α β) (seqs : List ℕ) : SameTerms b (b.visit past seqs) := by
  induction seqs generalizing b with
  | nil => exact SameTerms.refl b
  | cons s seqs ih => exact (sameTerms_look past b s).trans (ih _)

theorem kept_visit (past : List α) (b : Batch α β) (seqs : List ℕ) :
    (b.visit past seqs).kept.toList = b.kept.toList ++ seqs.filterMap (b.pick? past) := by
  induction seqs generalizing b with
  | nil => simp
  | cons s seqs ih =>
    have hpick : (b.look past s).pick? past = b.pick? past := by
      funext t
      have h := sameTerms_look past b s
      simp only [pick?, h.keeps, h.project]
    rw [visit_cons, ih, kept_look, hpick, List.append_assoc]
    congr 1
    cases hp : b.pick? past s <;> simp [hp]

/-- what a filter picks, as the sequences and as the records that pass it -/
theorem filterMap_pick? (past : List α) (b : Batch α β) (seqs : List ℕ) :
    (seqs.filterMap (b.pick? past)).map Prod.fst = (seqs.filter fun t => past[t]?.any b.keeps).map Int.ofNat ∧
      (seqs.filterMap (b.pick? past)).map Prod.snd =
        ((seqs.filterMap fun t => past[t]?).filter b.keeps).map b.project := by
  induction seqs with
  | nil => exact ⟨rfl, rfl⟩
  | cons t seqs ih =>
    obtain ⟨hfst, hsnd⟩ := ih
    cases ht : past[t]? with
    | none => simp [pick?, ht, hfst, hsnd]
    | some a => cases hk : b.keeps a <;> simp [pick?, ht, hk, hfst, hsnd, Option.filter]

theorem take_drop_eq_filterMap (past : List α) (s k : ℕ) (h : s + k ≤ past.length) :
    (past.drop s).take k = (List.range' s k).filterMap fun t => past[t]? := by
  induction k generalizing s with
  | zero => simp
  | succ k ih =>
    have hs : s < past.length := by omega
    rw [List.drop_eq_getElem_cons hs, List.take_succ_cons, List.range'_succ, ih (s + 1) (by omega)]
    simp [List.getElem?_eq_getElem hs]

/-- the sequences that a batch holds after a stretch: to those it held come those whose records pass the filter, in order -/
theorem sequences_visit (past : List α) (b : Batch α β) (s k : ℕ) :
    (b.visit past (List.range' s k)).sequences =
      b.sequences ++ ((List.range' s k).filter fun t => past[t]?.any b.keeps).map Int.ofNat := by
  rw [sequences, kept_visit, List.map_append, (filterMap_pick? past b _).1, sequences]

/-- the items that a batch holds after a stretch: to those it held come the records that pass the filter, projected, in order -/
theorem items_visit {past : List α} (b : Batch α β) {s k : ℕ} (h : s + k ≤ past.length) :
    (b.visit past (List.range' s k)).items =
      b.items ++ (((past.drop s).take k).filter b.keeps).map b.project := by
  rw [items, kept_visit, List.map_append, (filterMap_pick? past b _).2, take_drop_eq_filterMap past s k h, items]

theorem visited_visit {past : List α} (b : Batch α β) {seqs : List ℕ} (h : ∀ s ∈ seqs, s < past.length) :
    (b.visit past seqs).visited = b.visited + seqs.length := by
  induction seqs generalizing b with
  | nil => rfl
  | cons s seqs ih =>
    have hlt : s < past.length := h s List.mem_cons_self
    have hs : past[s]? = some past[s] := List.getElem?_eq_getElem hlt
    have hv : (b.look past s).visited = b.visited + 1 := by simp [look, hs]
    rw [visit_cons, ih _ fun t ht => h t (List.mem_cons_of_mem s ht), hv, List.length_cons]
    omega

/-- a visit that saw something leaves the batch behind the last sequence of it -/
theorem next_visit {past : List α} (b : Batch α β) {s k : ℕ} (hk : 0 < k) (h : s + k ≤ past.length) :
    (b.visit past (List.range' s k)).next = (s + k : ℕ) := by
  obtain ⟨j, rfl⟩ : ∃ j, k = j + 1 := ⟨k - 1, by omega⟩
  have hs : past[s + j]? = some past[s + j] := List.getElem?_eq_getElem (by omega)
  rw [List.range'_1_concat, visit_append]
  simp only [visit_cons, visit_nil, look, hs, next_offer]
  push_cast
  omega

/-- a batch that was not full before each of the visited sequences is not overfull after them -/
theorem size_visit_le {past : List α} {b : Batch α β} {s k : ℕ} (hb : b.kept.size ≤ b.maxSize)
    (h : ∀ j < k, (b.visit past (List.range' s j)).full = false) :
    (b.visit past (List.range' s k)).kept.size ≤ b.maxSize := by
  cases k with
  | zero => simpa using hb
  | succ j =>
    have hj := h j (Nat.lt_succ_self j)
    have hmax := (sameTerms_visit past b (List.range' s j)).maxSize
    simp only [full, decide_eq_false_iff_not, hmax] at hj
    rw [List.range'_1_concat, visit_append]
    have := size_look_le past (b.visit past (List.range' s j)) (s + j)
    simp only [visit_cons, visit_nil]
    omega

end Batch

namespace Container

variable {α β : Type}

theorem offerFrom_full (r : RingBuffer α) (n : ℕ) (s : Int) {b : Batch α β} (hb : b.full = true) :
    offerFrom r n s b = (b, s) := by
  cases n with
  | zero => rfl
  | succ n => rw [offerFrom, if_pos hb]

theorem offerFrom_succ (r : RingBuffer α) (n : ℕ) (s : Int) {b : Batch α β} (hb : b.full = false) :
    offerFrom r (n + 1) s b = offerFrom r n (s + 1) (b.offer? s (r.read s)) := by
  rw [offerFrom, if_neg (by simp [hb])]
  cases r.read s <;> rfl

/-- a bounded scan visits consecutive sequences until its bound or until the batch is full -/
theorem offerFrom_visit {c : Container α} {past : List α} (h : c.Records past) (n : ℕ) {s : ℕ} (b : Batch α β)
    (hs : c.head ≤ s) (hn : s + n ≤ past.length) :
    ∃ k ≤ n, offerFrom c.ring n s b = (b.visit past (List.range' s k), ((s + k : ℕ) : Int)) ∧
      (k = n ∨ (b.visit past (List.range' s k)).full = true) ∧
      ∀ j < k, (b.visit past (List.range' s j)).full = false := by
  induction n generalizing s b with
  | zero => exact ⟨0, le_rfl, rfl, Or.inl rfl, fun j hj => absurd hj (Nat.not_lt_zero j)⟩
  | succ n ih =>
    cases hf : b.full with
    | true =>
      rw [offerFrom_full c.ring _ s hf]
      exact ⟨0, Nat.zero_le _, rfl, Or.inr hf, fun j hj => absurd hj (Nat.not_lt_zero j)⟩
    | false =>
      obtain ⟨k, hk, heq, hstop, hroom⟩ := ih (s := s + 1) (b.look past s) (by push_cast; omega) (by omega)
      have hrange : ∀ j, b.visit past (List.range' s (j + 1)) = (b.look past s).visit past (List.range' (s + 1) j) := by
        intro j
        rw [List.range'_succ, Batch.visit_cons]
      refine ⟨k + 1, by omega, ?_, ?_, ?_⟩
      · rw [hrange, offerFrom_succ c.ring n s hf, h.read hs, ← Batch.look_eq,
          show (s : Int) + 1 = ((s + 1 : ℕ) : Int) by push_cast; rfl, heq]
        congr 2
        omega
      · rw [hrange]
        exact hstop.imp (by omega) id
      · intro j hj
        cases j with
        | zero => exact hf
        | succ j => rw [hrange]; exact hroom j (by omega)

/-- a bounded scan goes on by no more than its bound, and forgets no visit -/
theorem offerFrom_bounds (r : RingBuffer α) (n : ℕ) (s : Int) (b : Batch α β) :
    s ≤ (offerFrom r n s b).2 ∧ (offerFrom r n s b).2 ≤ s + n ∧ b.visited ≤ (offerFrom r n s b).1.visited := by
  induction n generalizing s b with
  | zero => simp [offerFrom]
  | succ n ih =>
    cases hb : b.full with
    | true =>
      rw [offerFrom_full r _ s hb]
      simp only
      omega
    | false =>
      rw [offerFrom_succ r n s hb]
      have hnext := ih (s + 1) (b.offer? s (r.read s))
      have hvisited := b.visited_le_offer? s (r.read s)
      omega

theorem checkPosition_ok_iff {c : Container α} {s : Int} :
    c.checkPosition s = .ok () ↔ c.head ≤ s ∧ s ≤ c.tail + 1 := by
  unfold checkPosition
  split
  · constructor
    · intro h; cases h
    · intro h; omega
  · split
    · constructor
      · intro h; cases h
      · intro h; omega
    · exact ⟨fun _ => by omega, fun _ => rfl⟩

theorem checkPosition_error {c : Container α} {s : Int} {e : JournalError} (h : c.checkPosition s = .error e)
    (ht : s ≤ c.tail + 1) : s < c.head ∧ e = .staleSequence s c.head := by
  unfold checkPosition at h
  rw [if_neg (by omega)] at h
  split at h
  · next hs => exact ⟨hs, by cases h; rfl⟩
  · cases h

/-- from a position that is accepted a scan is not refused -/
theorem readMany_eq {c : Container α} {s : Int} (hs : c.head ≤ s) (hs' : s ≤ c.tail + 1) (b : Batch α β) :
    c.readMany s b = .ok ({ (offerFrom c.ring (c.tail + 1 - s).toNat s b).1 with
      next := (offerFrom c.ring (c.tail + 1 - s).toNat s b).2 },
      (offerFrom c.ring (c.tail + 1 - s).toNat s b).1.visited - b.visited) := by
  have hok : c.checkPosition s = .ok () := checkPosition_ok_iff.2 ⟨hs, hs'⟩
  simp only [readMany, hok, bind, Except.bind, pure, Except.pure]

/-- **A scan is a visit.** From a retained sequence, or the one just behind the tail, it visits consecutive sequences
up to the tail, or up to the first at which the batch is full, and remembers where it stopped. -/
theorem readMany_visit {c : Container α} {past : List α} (h : c.Records past) {s : ℕ} (b : Batch α β)
    (hs : c.head ≤ s) (hs' : s ≤ past.length) :
    ∃ k, s + k ≤ past.length ∧
      c.readMany s b = .ok ({ b.visit past (List.range' s k) with next := ((s + k : ℕ) : Int) }, k) ∧
      (s + k = past.length ∨ (b.visit past (List.range' s k)).full = true) ∧
      ∀ j < k, (b.visit past (List.range' s j)).full = false := by
  have ht := h.tail
  have hbound : (c.tail + 1 - (s : Int)).toNat = past.length - s := by omega
  obtain ⟨k, hk, heq, hstop, hroom⟩ := offerFrom_visit h (past.length - s) b hs (by omega)
  have hvisited : (b.visit past (List.range' s k)).visited - b.visited = k := by
    rw [Batch.visited_visit b fun t ht => by have := (List.mem_range'_1.1 ht).2; omega, List.length_range']
    omega
  refine ⟨k, by omega, ?_, hstop.imp (by omega) id, hroom⟩
  rw [readMany_eq hs (by omega), hbound, heq]
  simp only [hvisited]

/-- a scan into a batch with room that finds something to read is a visit and nothing more -/
theorem readMany_visit_of_room {c : Container α} {past : List α} (h : c.Records past) {s : ℕ} {b : Batch α β}
    (hs : c.head ≤ s) (hs' : s < past.length) (hroom : b.full = false) :
    ∃ k, 0 < k ∧ s + k ≤ past.length ∧ c.readMany s b = .ok (b.visit past (List.range' s k), k) ∧
      (s + k = past.length ∨ (b.visit past (List.range' s k)).full = true) ∧
      ∀ j < k, (b.visit past (List.range' s j)).full = false := by
  obtain ⟨k, hk, heq, hstop, hfull⟩ := readMany_visit h b hs (Nat.le_of_lt hs')
  have hpos : 0 < k := by
    rcases Nat.eq_zero_or_pos k with rfl | hpos
    · rcases hstop with hstop | hstop
      · omega
      · simp [hroom] at hstop
    · exact hpos
  refine ⟨k, hpos, hk, ?_, hstop, hfull⟩
  rw [heq, ← Batch.next_visit b hpos hk]

/-! ## In place -/

theorem offerInPlace_full (r : RingBuffer α) (n : ℕ) (s : Int) (k : ℕ) {b : Batch α β} (hb : b.full = true) :
    (offerInPlace r n s k).run b = ((s, k), b) := by
  cases n with
  | zero => rfl
  | succ n =>
    simp only [offerInPlace, StateT.run_bind, StateT.run_get, pure_bind, hb, if_true]
    rfl

theorem offerInPlace_succ (r : RingBuffer α) (n : ℕ) (s : Int) (k : ℕ) {b : Batch α β} (hb : b.full = false) :
    (offerInPlace r (n + 1) s k).run b =
      (offerInPlace r n (s + 1) (k + (r.read s).toList.length)).run (b.offer? s (r.read s)) := by
  simp only [offerInPlace, StateT.run_bind, StateT.run_get, pure_bind, hb]
  cases r.read s <;> rfl

/-- in place the loop ends where the other does, leaves the same batch, and has counted what the batch counts as visited -/
theorem offerInPlace_run (r : RingBuffer α) (n : ℕ) (s : Int) (k : ℕ) (b : Batch α β) :
    (offerInPlace r n s k).run b =
      (((offerFrom r n s b).2, k + ((offerFrom r n s b).1.visited - b.visited)), (offerFrom r n s b).1) := by
  induction n generalizing s k b with
  | zero => simp only [offerInPlace, offerFrom, Nat.sub_self, Nat.add_zero]; rfl
  | succ n ih =>
    cases hb : b.full with
    | true => rw [offerInPlace_full r _ s k hb, offerFrom_full r _ s hb, Nat.sub_self, Nat.add_zero]
    | false =>
      -- a difference of visits counts as the loop does, because visits are never forgotten
      have hvisited := (offerFrom_bounds r n (s + 1) (b.offer? s (r.read s))).2.2
      rw [offerInPlace_succ r n s k hb, offerFrom_succ r n s hb, ih]
      congr 2
      cases hr : r.read s with
      | none => rfl
      | some a =>
        simp only [hr, Batch.offer?, Option.elim_some, Batch.visited_offer, Option.toList_some, List.length_singleton] at hvisited ⊢
        omega

/-- **A scan in place is the scan, and a refused one leaves the batch as it was.** -/
theorem readManyInPlace_run (c : Container α) (s : Int) (b : Batch α β) :
    (c.readManyInPlace s).run.run b =
      match c.readMany s b with
      | .ok (b', n) => (.ok n, b')
      | .error e => (.error e, b) := by
  cases hs : c.checkPosition s with
  | error e =>
    rw [readMany_error_iff.2 hs]
    simp only [readManyInPlace, hs]
    rfl
  | ok u =>
    have hrun : (c.readManyInPlace s).run.run b =
        let p := (offerInPlace c.ring (c.tail + 1 - s).toNat s 0).run b
        (.ok p.1.2, { p.2 with next := p.1.1 }) := by
      simp only [readManyInPlace, hs]
      rfl
    simp only [hrun, offerInPlace_run, Nat.zero_add, readMany, hs]
    rfl

end Container

end Changefeed
