/-
A reader and the history of its journal. Whatever happens between its polls, the batch of a reader is what its first
batch becomes by visiting the records from its first sequence up to its position, all of them, each once and in order
(`Stretch`). The position of a reader that was not cancelled is never beyond the end of the history, and the records
behind it are still those that it visited, since a history only grows under such a reader.

Results:
- `Stretch.sequences`, `Stretch.items`, `Stretch.visited`, `Stretch.next`: what a batch holds after a stretch;
- `tracks_step`, `tracks_run`: a reader keeps track of its journal, whatever is done between its polls;
- `finished_reached`: so does a reader that finishes.
-/
import Changefeed.Proofs.Sound

namespace Changefeed

namespace Batch

variable {α β : Type}

/-- the second batch is what the first becomes by visiting the records under `s` up to `n`, with room at each of them -/
structure Stretch (past : List α) (b : Batch α β) (s n : ℕ) (b' : Batch α β) : Prop where
  le : s ≤ n
  bound : n ≤ past.length
  visit : b' = b.visit past (List.range' s (n - s))
  room : ∀ j < n - s, (b.visit past (List.range' s j)).full = false

theorem Stretch.refl {past : List α} (b : Batch α β) {s : ℕ} (h : s ≤ past.length) : Stretch past b s s b := by
  refine ⟨le_rfl, h, ?_, ?_⟩
  · rw [Nat.sub_self]
    rfl
  · intro j hj
    omega

theorem Stretch.trans {past : List α} {b b' b'' : Batch α β} {s n m : ℕ} (h : Stretch past b s n b')
    (h' : Stretch past b' n m b'') : Stretch past b s m b'' := by
  have hle := h.le
  have hle' := h'.le
  -- a visit of `j` records beyond `n` is a visit of `n - s + j` records from `s` on
  have hglue : ∀ j, b'.visit past (List.range' n j) = b.visit past (List.range' s (n - s + j)) := by
    intro j
    have hn : s + (n - s) = n := by omega
    rw [h.visit, ← visit_range', hn]
  refine ⟨le_trans hle hle', h'.bound, ?_, ?_⟩
  · rw [h'.visit, hglue]
    congr 2
    omega
  · intro j hj
    rcases Nat.lt_or_ge j (n - s) with hlt | hge
    · exact h.room j hlt
    · obtain ⟨i, rfl⟩ := Nat.exists_eq_add_of_le hge
      rw [← hglue]
      exact h'.room i (by omega)

/-- later records do not change what was visited -/
theorem Stretch.extend {past : List α} {b b' : Batch α β} {s n : ℕ} (h : Stretch past b s n b') (more : List α) :
    Stretch (past ++ more) b s n b' := by
  have hle := h.le
  have hbound := h.bound
  refine ⟨hle, ?_, ?_, ?_⟩
  · rw [List.length_append]
    omega
  · rw [h.visit]
    exact (visit_extend more b (by omega)).symm
  · intro j hj
    rw [visit_extend more b (by omega)]
    exact h.room j hj

theorem Stretch.terms {past : List α} {b b' : Batch α β} {s n : ℕ} (h : Stretch past b s n b') : SameTerms b b' := by
  rw [h.visit]
  exact sameTerms_visit past b _

theorem Stretch.visited {past : List α} {b b' : Batch α β} {s n : ℕ} (h : Stretch past b s n b') :
    b'.visited = b.visited + (n - s) := by
  have hle := h.le
  have hbound := h.bound
  rw [h.visit, visited_visit b, List.length_range']
  intro t ht
  have := (List.mem_range'_1.1 ht).2
  omega

/-- a stretch that is not empty leaves the batch at its end -/
theorem Stretch.next {past : List α} {b b' : Batch α β} {s n : ℕ} (h : Stretch past b s n b') (hlt : s < n) :
    b'.next = n := by
  have hbound := h.bound
  have hn : s + (n - s) = n := by omega
  have hnext := next_visit b (s := s) (k := n - s) (by omega) (show s + (n - s) ≤ past.length by omega)
  rw [h.visit, hnext, hn]

theorem Stretch.same {past : List α} {b b' : Batch α β} {s : ℕ} (h : Stretch past b s s b') : b' = b := by
  have hvisit := h.visit
  rwa [Nat.sub_self] at hvisit

theorem Stretch.size_le {past : List α} {b b' : Batch α β} {s n : ℕ} (h : Stretch past b s n b')
    (hb : b.kept.size ≤ b.maxSize) : b'.kept.size ≤ b.maxSize := by
  rw [h.visit]
  exact size_visit_le hb h.room

/-- the sequences that an empty batch holds after a stretch: those whose records pass the filter, in order -/
theorem Stretch.sequences {past : List α} {b b' : Batch α β} {s n : ℕ} (h : Stretch past b s n b')
    (hb : b.kept = #[]) :
    b'.sequences = ((List.range' s (n - s)).filter fun t => past[t]?.any b.keeps).map Int.ofNat := by
  rw [h.visit, sequences_visit, Batch.sequences, hb]
  rfl

/-- the items that an empty batch holds after a stretch: the records that pass the filter, projected, in order -/
theorem Stretch.items {past : List α} {b b' : Batch α β} {s n : ℕ} (h : Stretch past b s n b') (hb : b.kept = #[]) :
    b'.items = (((past.drop s).take (n - s)).filter b.keeps).map b.project := by
  have hle := h.le
  have hbound := h.bound
  rw [h.visit, items_visit b (by omega), Batch.items, hb]
  rfl

end Batch

/-- the operation leaves the job `id` to its polls, and the journals to the feed -/
def Op.spares {ω β : Type} (id : String) : Op ω β → Bool
  | .startReader id' .. => id' ≠ id
  | .drop id' => id' ≠ id
  | .startWatch id' _ => id' ≠ id
  | .discard _ => false
  | _ => true

theorem keepsJournals_of_spares {ω β : Type} {id : String} {op : Op ω β} (h : op.spares id = true) :
    op.keepsJournals = true := by
  cases op with
  | discard key => cases h
  | _ => rfl

namespace Feed

open Batch (Stretch)

variable {ω β : Type}

/-! ## Where a reader has got to -/

/-- from its first sequence a reader has visited the records up to its position -/
def Reached (past : List EventRecord) (first : Int) (b : Batch EventRecord β) (position : Int)
    (b' : Batch EventRecord β) : Prop :=
  ∃ s n : ℕ, first = s ∧ position = n ∧ Stretch past b s n b'

theorem Reached.extend {past : List EventRecord} {first position : Int} {b b' : Batch EventRecord β}
    (h : Reached past first b position b') (more : List EventRecord) :
    Reached (past ++ more) first b position b' := by
  obtain ⟨s, n, hs, hn, hstretch⟩ := h
  exact ⟨s, n, hs, hn, hstretch.extend more⟩

/-- what a reader can rely on at a position that its journal accepts -/
structure Ready (past : List EventRecord) (first : Int) (b : Batch EventRecord β) (position : Int)
    (b' : Batch EventRecord β) : Prop where
  reached : 0 ≤ position → position ≤ past.length → Reached past first b position b'
  room : b'.full = false

/-- a reader that has not been polled is where it starts -/
theorem ready_start (past : List EventRecord) (first : Int) {b : Batch EventRecord β} (hroom : b.full = false) :
    Ready past first b first b := by
  refine ⟨?_, hroom⟩
  intro h0 hle
  obtain ⟨s, rfl⟩ := Int.eq_ofNat_of_zero_le h0
  exact ⟨s, s, rfl, rfl, Stretch.refl b (by omega)⟩

section Scans

variable {c : Container EventRecord} {past : List EventRecord} {first position : Int} {b b' b'' : Batch EventRecord β}

/-- a scan that finds something to read takes the reader on, to the tail or to where the batch is full -/
theorem Ready.scan (h : Ready past first b position b') (hc : c.Records past) (hh : c.head ≤ position)
    (ht : position ≤ c.tail) {k : ℕ} (hr : c.readMany position b' = .ok (b'', k)) :
    ∃ m : ℕ, Reached past first b m b'' ∧ (m = past.length ∨ b''.full = true) := by
  have hhead := hc.head_nonneg
  have htail := hc.tail
  obtain ⟨s, n, hs, hn, hstretch⟩ := h.reached (by omega) (by omega)
  subst hn
  obtain ⟨j, hpos, hbound, hread, hstop, hroom⟩ := Container.readMany_visit_of_room hc hh (by omega) h.room
  rw [hread] at hr
  obtain ⟨rfl, rfl⟩ : b'.visit past (List.range' n j) = b'' ∧ j = k := by simpa using hr
  have hj : n + j - n = j := by omega
  have hscan : Stretch past b' n (n + j) (b'.visit past (List.range' n j)) := by
    refine ⟨Nat.le_add_right n j, hbound, ?_, ?_⟩
    · rw [hj]
    · rw [hj]
      exact hroom
  exact ⟨n + j, ⟨s, n + j, hs, rfl, hstretch.trans hscan⟩, hstop⟩

/-- a reader that has caught up has visited everything up to the tail -/
theorem Ready.catchUp (h : Ready past first b position b') (hc : c.Records past) (hcaught : CaughtUp c position b' b'') :
    Reached past first b past.length b'' ∧ b''.full = false := by
  have htail := hc.tail
  cases hcaught with
  | still hs =>
    obtain ⟨s, n, hfirst, hn, hstretch⟩ := h.reached (by omega) (by omega)
    have hlength : n = past.length := by omega
    subst hlength
    exact ⟨⟨s, past.length, hfirst, rfl, hstretch⟩, h.room⟩
  | read _ k hh ht hr hf =>
    obtain ⟨m, hreached, hstop⟩ := h.scan hc hh ht hr
    rcases hstop with rfl | hfull
    · exact ⟨hreached, hf⟩
    · rw [hf] at hfull
      cases hfull

end Scans

/-! ## Through a run -/

/-- the job `id` is a reader of `key` that started at `first` with batch `b`, and where it has got to; or there is no such reader any more -/
inductive Tracks (f : Feed β) (past : List EventRecord) (id : String) (key : JournalKey) (first : Int)
    (b : Batch EventRecord β) : Prop
  | gone (h : ∀ r, f.jobs.get? id ≠ some (.reader r))
  | fresh (hr : f.jobs.get? id = some (.reader ⟨key, first, b, none⟩))
  | parked (position : Int) (b' : Batch EventRecord β) (watch : Watch)
      (hr : f.jobs.get? id = some (.reader ⟨key, position, b', some watch⟩))
      (hs : f.waits.isCancelled watch.waiter = false →
        (∃ c, f.store.live? key = some c) ∧ Reached past first b position b' ∧ b'.full = false)

section Run

variable {f f₀ : Feed β} {past : JournalKey → List EventRecord} {id : String} {key : JournalKey} {first : Int}
  {b : Batch EventRecord β}

theorem Enrolled.history {r : Reader β} {w : Waiter} (he : Enrolled f r f₀ w) (h : f.History past) :
    f₀.History past := by
  cases he <;> exact h

/-- a tracked reader that makes its turns is ready for them -/
theorem Tracks.ready {r : Reader β} {w : Waiter} (ht : Tracks f (past key) id key first b)
    (hroom : b.full = false) (hr : f.jobs.get? id = some (.reader r)) (he : Enrolled f r f₀ w)
    (hstand : f₀.waits.isCancelled w = false) : r.key = key ∧ Ready (past key) first b r.position r.batch := by
  cases ht with
  | gone hno => exact absurd hr (hno r)
  | fresh hr' =>
    rw [hr] at hr'
    cases hr'
    exact ⟨rfl, ready_start (past key) first hroom⟩
  | parked position b' watch hr' hs =>
    rw [hr] at hr'
    cases hr'
    cases he with
    | woken _ hp _ =>
      cases hp
      obtain ⟨-, hreached, hfull⟩ := hs hstand
      exact ⟨rfl, fun _ _ => hreached, hfull⟩
    | first hp => cases hp

/-- **A reader keeps track of its journal, whatever is done between its polls.** -/
theorem tracks_step {encode : ω → Except WireError Data} (h : f.Sound past)
    (ht : Tracks f (past key) id key first b) (hroom : b.full = false) {op : Op ω β} (hop : op.spares id = true) :
    Tracks (f.step encode op).1 (op.record encode f key (past key)) id key first b := by
  have hkeeps := keepsJournals_of_spares hop
  by_cases hex : ∃ r, (f.step encode op).1.jobs.get? id = some (.reader r)
  · obtain ⟨r, hjob⟩ := hex
    cases step_stands encode h.keyed h.history.ringed hjob with
    | other hne hr =>
      cases ht with
      | gone hno => exact absurd hr (hno r)
      | fresh hr' =>
        rw [hr] at hr'
        cases hr'
        exact .fresh hjob
      | parked position b' watch hr' hs =>
        rw [hr] at hr'
        cases hr'
        refine .parked position b' watch hjob fun hstand => ?_
        obtain ⟨⟨c, hc⟩, hreached, hfull⟩ := hs (standing_of_step encode h.keyed hstand)
        have htorn := h.not_torn hkeeps hr rfl hstand
        obtain ⟨c', hc', -, -⟩ := h.stays htorn hc
        refine ⟨⟨c', hc'⟩, ?_, hfull⟩
        rw [Op.record, htorn, if_neg Bool.false_ne_true]
        exact hreached.extend _
    | still hen hf hr =>
      rw [hf, record_of_enlists hen]
      exact ht
    | started hstart =>
      subst hstart
      simp [Op.spares] at hop
    | @parked r _ _ w watch position b' hpoll hr he ho hf =>
      obtain ⟨c, hparks⟩ := ho.parks
      obtain ⟨hkey, hready⟩ := ht.ready hroom hr he hparks.standing
      subst hpoll hkey
      have hfound := hparks.found
      rw [he.key h hr] at hfound
      obtain ⟨-, hlive, -⟩ := live_of_container? hfound
      have hrecords := (he.history h.history).found hfound
      obtain ⟨hreached, hfull⟩ := hready.catchUp hrecords hparks.caught
      have hposition : position = (past r.key).length := by
        rw [hparks.position, hrecords.tail]
        omega
      subst hposition
      rw [hf, record_of_enlists rfl]
      exact .parked _ _ watch (Table.get?_set_self _ _ _) fun _ => ⟨⟨c, hlive⟩, hreached, hfull⟩
  · apply Tracks.gone
    intro r hr
    exact hex ⟨r, hr⟩

theorem tracks_run {encode : ω → Except WireError Data} (h : f.Sound past)
    (ht : Tracks f (past key) id key first b) (hroom : b.full = false) {ops : List (Op ω β)}
    (hops : ∀ op ∈ ops, op.spares id = true) :
    Tracks (f.run encode ops).1 (recorded encode key f (past key) ops) id key first b := by
  induction ops generalizing f past with
  | nil => exact ht
  | cons op ops ih =>
    have hop := hops op List.mem_cons_self
    apply ih (sound_step encode h op)
    · exact tracks_step h ht hroom hop
    · intro op' hop'
      exact hops op' (List.mem_cons_of_mem op hop')

/-- a reader that finishes with its batch has visited everything up to the tail, or filled the batch -/
theorem finished_reached (h : f.Sound past) (ht : Tracks f (past key) id key first b) (hroom : b.full = false)
    {result : Batch EventRecord β} (hpoll : (f.poll id).2 = some (.finished (.ok result))) :
    ∃ c, (f.poll id).1.store.live? key = some c ∧ c.Records (past key) ∧
      ∃ n : ℕ, Reached (past key) first b n result ∧
        (result.full = true ∨ n = (past key).length ∧ result.satisfied = true) := by
  cases hjob : f.jobs.get? id with
  | none => simp [poll, hjob] at hpoll
  | some job =>
    cases job with
    | watch owner watch polled =>
      simp only [poll, hjob] at hpoll
      split at hpoll <;> cases hpoll
    | reader r =>
      obtain ⟨f', p, heq, hpolled⟩ := poll_polled h.history.ringed hjob
      rw [heq] at hpoll ⊢
      cases hpoll
      cases hpolled with
      | ended f₀ f₁ w _ he ho =>
        cases ho with
        | served _ c _ hstand hfound hs =>
          obtain ⟨hkey, hready⟩ := ht.ready hroom hjob he hstand
          rw [he.key h hjob, hkey] at hfound
          obtain ⟨-, hlive, -⟩ := live_of_container? hfound
          have hrecords := (he.history h.history).found hfound
          refine ⟨c, hlive, hrecords, ?_⟩
          cases hs with
          | filled _ k hh hle hr hf =>
            obtain ⟨m, hreached, -⟩ := hready.scan hrecords hh hle hr
            exact ⟨m, hreached, Or.inl hf⟩
          | enough _ hcaught hb =>
            obtain ⟨hreached, -⟩ := hready.catchUp hrecords hcaught
            exact ⟨(past key).length, hreached, Or.inr ⟨rfl, hb⟩⟩

end Run

end Feed

end Changefeed
