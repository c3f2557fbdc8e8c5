/-
What a blocking read delivers. A reader starts at a sequence with a fresh batch and is polled at any moments, between
any other operations: writes, clean-ups, tearing down and creating anew, other readers coming and going, changes of the
surroundings, wake-ups for nothing. If it finishes with its batch, the batch holds exactly what was written.

Results:
- `read_delivers`: the batch is what a stretch of the history leaves in it, each record visited once and in order;
- `resume_point`: where a later read goes on. A read that found nothing does not say where it stood.
-/
import Changefeed.Proofs.Tracks

namespace Changefeed

namespace Feed

open Batch (Stretch)

variable {ω β : Type}

/-- a finished batch against the history of its journal, and against what the reader asked for: it was started at `first` and
has visited the records up to `n`, and `c` is the journal's container when it finished -/
structure Delivered (past : List EventRecord) (c : Container EventRecord) (minSize maxSize : ℕ)
    (filter : Option (EventRecord → Bool)) (project : EventRecord → β) (first n : ℕ) (result : Batch EventRecord β) : Prop where
  le : first ≤ n
  written : n ≤ past.length
  /-- each record from `first` up to `n` was offered once, in order, and no other -/
  visits : ∃ b, Batch.fresh minSize maxSize filter project = .ok b ∧ result = b.visit past (List.range' first (n - first))
  sequences : result.sequences =
    ((List.range' first (n - first)).filter fun t => past[t]?.any fun a => filter.all fun p => p a).map Int.ofNat
  items : result.items = (((past.drop first).take (n - first)).filter fun a => filter.all fun p => p a).map project
  count : result.visited = n - first
  enough : minSize ≤ result.kept.size
  room : result.kept.size ≤ maxSize
  last : result.kept.size = maxSize ∨ (n : Int) = c.tail + 1

theorem delivered_of_stretch {past : List EventRecord} {c : Container EventRecord} (hc : c.Records past)
    {minSize maxSize : ℕ} {filter : Option (EventRecord → Bool)} {project : EventRecord → β} {b : Batch EventRecord β}
    (hb : Batch.fresh minSize maxSize filter project = .ok b) {s n : ℕ} {result : Batch EventRecord β}
    (h : Stretch past b s n result)
    (hlast : result.full = true ∨ n = past.length ∧ result.satisfied = true) :
    Delivered past c minSize maxSize filter project s n result := by
  obtain ⟨rfl, hmax, hmin⟩ := Batch.fresh_eq hb
  have hterms := h.terms
  have hsize : result.kept.size ≤ maxSize := h.size_le (Nat.zero_le _)
  have hsequences := h.sequences rfl
  have hitems := h.items rfl
  rw [Batch.keeps_eq] at hsequences hitems
  refine ⟨h.le, h.bound, ⟨_, hb, h.visit⟩, hsequences, hitems, ?_, ?_, hsize, ?_⟩
  · rw [h.visited, Nat.zero_add]
  · rcases hlast with hfull | ⟨-, hsat⟩
    · simp only [Batch.full, hterms.maxSize, decide_eq_true_eq] at hfull
      exact le_trans hmin hfull
    · simpa [Batch.satisfied, hterms.minSize] using hsat
  · rcases hlast with hfull | ⟨hn, -⟩
    · simp only [Batch.full, hterms.maxSize, decide_eq_true_eq] at hfull
      exact Or.inl (le_antisymm hsize hfull)
    · have htail := hc.tail
      right
      omega

/-- the feed after a run in which a reader is started, and what is known of that reader -/
theorem tracks_of_run (encode : ω → Except WireError Data) (resolver : Resolver) (registered : Bool)
    (before between : List (Op ω β)) (id : String) (key : JournalKey) (first : Int) {b : Batch EventRecord β}
    (hroom : b.full = false) (hspares : ∀ op ∈ between, op.spares id = true) :
    let start : Feed β := init resolver registered
    let ops := before ++ .startReader id key first b :: between
    (start.run encode ops).1.Sound (fun k => recorded encode k start [] ops) ∧
      Tracks (start.run encode ops).1 (recorded encode key start [] ops) id key first b := by
  intro start ops
  have hsound : start.Sound fun _ => [] := sound_init resolver registered
  refine ⟨sound_run encode hsound ops, ?_⟩
  have hbefore := sound_run encode hsound before
  have hstarted := sound_step encode hbefore (.startReader id key first b)
  rw [run_append, recorded_append]
  exact tracks_run hstarted (.fresh (Table.get?_set_self _ _ _)) hroom hspares

/-- a reader that finishes after a run has visited a stretch of the history -/
theorem finished_of_run (encode : ω → Except WireError Data) (resolver : Resolver) (registered : Bool)
    (before between : List (Op ω β)) (id : String) (key : JournalKey) (first : Int) {b result : Batch EventRecord β}
    (hroom : b.full = false) (hspares : ∀ op ∈ between, op.spares id = true)
    (hdone : ((run encode (init resolver registered) (before ++ .startReader id key first b :: between)).1.poll id).2 =
      some (.finished (.ok result))) :
    let start : Feed β := init resolver registered
    let ops := before ++ .startReader id key first b :: between
    let past := recorded encode key start [] ops
    ∃ (s n : ℕ) (c : Container EventRecord), first = s ∧
      ((start.run encode ops).1.poll id).1.store.live? key = some c ∧ c.Records past ∧ Stretch past b s n result ∧
      (result.full = true ∨ n = past.length ∧ result.satisfied = true) := by
  intro start ops past
  obtain ⟨hsound, htracks⟩ :=
    tracks_of_run encode resolver registered before between id key first hroom hspares
  obtain ⟨c, hlive, hrecords, n, ⟨s, n', hs, hn, hstretch⟩, hlast⟩ := finished_reached hsound htracks hroom hdone
  obtain rfl : n = n' := by exact_mod_cast hn
  exact ⟨s, n, c, hs, hlive, hrecords, hstretch, hlast⟩

/-- **A blocking read delivers exactly the journal, over any interleaving.** If a reader that was started at `first` with
a fresh batch finishes with a result, then for some `n` the result is the records from `first` up to `n` as they were
written, filtered and projected; and it is full, or `n` is just behind the tail. -/
theorem read_delivers (encode : ω → Except WireError Data) (resolver : Resolver) (registered : Bool)
    (before between : List (Op ω β)) (id : String) (key : JournalKey) (first : Int) (minSize maxSize : ℕ)
    (filter : Option (EventRecord → Bool)) (project : EventRecord → β) (b result : Batch EventRecord β)
    (hb : Batch.fresh minSize maxSize filter project = .ok b) (hspares : ∀ op ∈ between, op.spares id = true)
    (hdone : ((run encode (init resolver registered) (before ++ .startReader id key first b :: between)).1.poll id).2 =
      some (.finished (.ok result))) :
    let start : Feed β := init resolver registered
    let ops := before ++ .startReader id key first b :: between
    ∃ (s n : ℕ) (c : Container EventRecord), first = s ∧
      ((start.run encode ops).1.poll id).1.store.live? key = some c ∧ c.Records (recorded encode key start [] ops) ∧
      Delivered (recorded encode key start [] ops) c minSize maxSize filter project s n result := by
  intro start ops
  obtain ⟨s, n, c, hs, hlive, hrecords, hstretch, hlast⟩ :=
    finished_of_run encode resolver registered before between id key first (Batch.full_fresh hb) hspares hdone
  exact ⟨s, n, c, hs, hlive, hrecords, delivered_of_stretch hrecords hb hstretch hlast⟩

/-- wants two orders, and leaves out those of entry 2 -/
def pickyBatch : Batch EventRecord Data := ⟨2, 3, some fun a => a.key ≠ [2], Change.key, #[], 0, 0⟩

/-- a reader parks twice, sees the order that it does not want, and gets the other two -/
theorem read_delivers_picky :
    let before : List (Op Data Data) := [addOrder 0, addOrder 1]
    let between : List (Op Data Data) := [.poll "r", addOrder 2, .destroy stocksKey, .poll "r", .cleanup ordersKey 5, addOrder 3]
    let ops := before ++ .startReader "r" ordersKey 1 pickyBatch :: between
    let f := (run .ok (init smallResolver true) ops).1
    let result : Batch EventRecord Data := { pickyBatch with kept := #[(1, [1]), (3, [3])], visited := 3, next := 4 }
    (f.poll "r").2 = some (.finished (.ok result)) ∧
      ∃ (s n : ℕ) (c : Container EventRecord), (1 : Int) = s ∧ (f.poll "r").1.store.live? ordersKey = some c ∧
        c.Records (recorded .ok ordersKey (init smallResolver true) [] ops) ∧
        Delivered (recorded .ok ordersKey (init smallResolver true) [] ops) c 2 3 (some fun a => a.key ≠ [2]) Change.key s n
          result := by
  intro before between ops f result
  have hdone : (f.poll "r").2 = some (.finished (.ok result)) := rfl
  have hspares : ∀ op ∈ between, op.spares "r" = true := by decide
  exact ⟨hdone, read_delivers .ok smallResolver true before between "r" ordersKey 1 2 3 _ _ pickyBatch result rfl
    hspares hdone⟩

/-- a batch that was fresh says where it ended, unless it visited nothing -/
theorem next_of_stretch {past : List EventRecord} {c : Container EventRecord} (hc : c.Records past) {minSize maxSize : ℕ}
    {filter : Option (EventRecord → Bool)} {project : EventRecord → β} {b : Batch EventRecord β}
    (hb : Batch.fresh minSize maxSize filter project = .ok b) {s n : ℕ} {result : Batch EventRecord β}
    (h : Stretch past b s n result) (hlast : result.full = true ∨ n = past.length ∧ result.satisfied = true) :
    result.visited = n - s ∧ (s = n → (s : Int) = c.tail + 1 ∧ result.next = 0) ∧
      (s < n → (s : Int) ≤ c.tail ∧ result.next = n) := by
  have htail := hc.tail
  have hbound := h.bound
  have hzero : b.visited = 0 ∧ b.next = 0 := by
    rw [(Batch.fresh_eq hb).1]
    exact ⟨rfl, rfl⟩
  refine ⟨?_, ?_, ?_⟩
  · rw [h.visited, hzero.1, Nat.zero_add]
  · rintro rfl
    have hsame : result = b := h.same
    -- nothing was visited, so the batch is not full and the reader stood just behind the tail
    have hlength : s = past.length := by
      rcases hlast with hfull | ⟨hn, -⟩
      · rw [hsame, Batch.full_fresh hb] at hfull
        cases hfull
      · exact hn
    refine ⟨by omega, ?_⟩
    rw [hsame, hzero.2]
  · intro hlt
    exact ⟨by omega, h.next hlt⟩

/-- **Where a finished read says that the next one goes on.** That is the first sequence that was not visited, if any
record was visited. A read that starts just behind the tail and asks for nothing visits none, and says zero wherever it
stood. -/
theorem resume_point (encode : ω → Except WireError Data) (resolver : Resolver) (registered : Bool)
    (before between : List (Op ω β)) (id : String) (key : JournalKey) (first : Int) (minSize maxSize : ℕ)
    (filter : Option (EventRecord → Bool)) (project : EventRecord → β) (b result : Batch EventRecord β)
    (hb : Batch.fresh minSize maxSize filter project = .ok b) (hspares : ∀ op ∈ between, op.spares id = true)
    (hdone : ((run encode (init resolver registered) (before ++ .startReader id key first b :: between)).1.poll id).2 =
      some (.finished (.ok result))) :
    let ops := before ++ .startReader id key first b :: between
    ∃ c : Container EventRecord, ((run encode (init resolver registered) ops).1.poll id).1.store.live? key = some c ∧
      (result.visited = 0 ↔ first = c.tail + 1) ∧
      result.next = (if first = c.tail + 1 then 0 else first + result.visited) ∧
      (result.next = first + result.visited ↔ first ≤ c.tail ∨ first = 0) := by
  intro ops
  obtain ⟨s, n, c, hs, hlive, hrecords, hstretch, hlast⟩ :=
    finished_of_run encode resolver registered before between id key first (Batch.full_fresh hb) hspares hdone
  obtain ⟨hcount, hnothing, hsomething⟩ := next_of_stretch hrecords hb hstretch hlast
  refine ⟨c, hlive, ?_⟩
  rcases Nat.eq_or_lt_of_le hstretch.le with heq | hlt
  · obtain ⟨hfirst, hnext⟩ := hnothing heq
    refine ⟨?_, ?_, ?_⟩
    · omega
    · rw [if_pos (hs.trans hfirst), hnext]
    · rw [hnext]
      omega
  · obtain ⟨hfirst, hnext⟩ := hsomething hlt
    refine ⟨?_, ?_, ?_⟩
    · omega
    · rw [if_neg (by omega), hnext]
      omega
    · rw [hnext]
      omega

/-- asks for nothing -/
def idleBatch : Batch EventRecord Data := ⟨0, 10, none, Change.key, #[], 0, 0⟩

/-- a read that starts behind three orders says that the next one goes on at zero -/
theorem resume_point_idle :
    let ops : List (Op Data Data) := [addOrder 0, addOrder 1, addOrder 2, .startReader "r" ordersKey 3 idleBatch]
    let f := (run .ok (init smallResolver true) ops).1
    (f.poll "r").2 = some (.finished (.ok idleBatch)) ∧ idleBatch.next ≠ 3 + idleBatch.visited ∧
      ∃ c : Container EventRecord, (f.poll "r").1.store.live? ordersKey = some c ∧
        (idleBatch.visited = 0 ↔ (3 : Int) = c.tail + 1) ∧
        idleBatch.next = (if (3 : Int) = c.tail + 1 then (0 : Int) else 3 + (idleBatch.visited : Int)) ∧
        (idleBatch.next = 3 + idleBatch.visited ↔ 3 ≤ c.tail ∨ (3 : Int) = 0) := by
  intro ops f
  have hdone : (f.poll "r").2 = some (.finished (.ok idleBatch)) := rfl
  refine ⟨hdone, by decide, ?_⟩
  exact resume_point .ok smallResolver true [addOrder 0, addOrder 1, addOrder 2] [] "r" ordersKey 3 0 10 none _ idleBatch
    idleBatch rfl (by decide) hdone

end Feed

end Changefeed
