/-
How a parked reader can fail. It has found its journal, so nothing that has to do with finding one can go wrong any more;
what is left is that the journal is torn down, or that the record which the reader waits for is written and given up again
before the reader gets to it.

`Since` follows that record from the reader's last park on: it is the next to be written, or it was written and is retained,
or it was given up, by a write to the full journal or because its time had come.

Results:
- `Used.givesUp`: the two ways in which a container gives up a record;
- `since_run`: what became of the record that a reader waits for;
- `expected_of_poll`, `stale_iff`: what a poll says to a parked reader;
- `parked_failures`: the answers to a parked reader, and exactly when it is told that it is too late.
-/
import Mathlib.Data.List.TakeWhile
import Changefeed.Proofs.Delivery
import Changefeed.Proofs.Parking

namespace Changefeed

variable {ω β : Type}

/-! ## Giving up a record -/

namespace Container

variable {c : Container EventRecord} {past : List EventRecord}

/-- the head of a container never goes back -/
theorem head_le_append (hc : c.Records past) (a : EventRecord) (now : ℕ) : c.head ≤ (c.append a now).1.head := by
  obtain ⟨l, hl, -⟩ := hc
  have hdropped := Log.dropped_le_append c.ring.capacity l a (c.expiry now)
  show c.ring.head ≤ (c.ring.add a (c.expiry now)).head
  rw [hl.head, RingBuffer.head_add hl]
  exact_mod_cast hdropped

/-- what was just appended is retained -/
theorem head_append_le (hc : c.Records past) (a : EventRecord) (now : ℕ) :
    (c.append a now).1.head ≤ (c.append a now).1.tail := by
  obtain ⟨l, hl, -⟩ := hc
  have hroom := hl.room
  have hdropped := hl.dropped_le
  have htail := hl.tail
  show (c.ring.add a (c.expiry now)).head ≤ c.ring.tail + 1
  rw [RingBuffer.head_add hl, htail]
  simp only [Log.append, List.length_append, List.length_singleton]
  omega

end Container

namespace RingBuffer

variable {α : Type} {r : RingBuffer α} {l : Log α}

/-- what is evicted was expired -/
theorem expired_of_evicted (h : r.Shows l) {n now : ℕ} (hn : r.head ≤ n) (hlost : (n : Int) < (r.evictExpired now).1.head) :
    ∃ slot, r.slot? n = some slot ∧ slot.expired now = true := by
  have hhead := h.head
  rw [(shows_evictExpired h now).1.head] at hlost
  simp only [Log.expire, Log.overdue_eq] at hlost
  have hlt : n - l.dropped < (l.retained.takeWhile (·.expired now)).length := by omega
  have hindex : l.dropped + (n - l.dropped) = n := by omega
  have hretained : l.retained[n - l.dropped]? = l.entries[n]? := by rw [Log.retained, List.getElem?_drop, hindex]
  have hentry := List.prefix_iff_getElem?.1 (List.takeWhile_prefix (l := l.retained) (·.expired now)) _ hlt
  rw [hretained] at hentry
  have hexpired := List.mem_takeWhile_imp (List.getElem_mem hlt)
  refine ⟨_, ?_, hexpired⟩
  rw [h.slot n (by omega) (List.getElem?_eq_some_iff.1 hentry).1]
  exact hentry

end RingBuffer

namespace Feed

/-- how a use of a container gives up the record under a sequence -/
inductive GivesUp (c : Container EventRecord) (s : Int) : Container EventRecord → Prop
  /-- another record comes to a container that is full, and this one is the oldest -/
  | overflow (a : EventRecord) (now : ℕ) (hfull : c.size = c.ring.capacity) (hs : s = c.head) :
      GivesUp c s (c.append a now).1
  /-- the records have a time to live, and that of this one is over -/
  | expiry (now : ℕ) (hexpires : c.config.expires = true) (slot : Slot EventRecord) (hslot : c.ring.slot? s = some slot)
      (hexpired : slot.expired now = true) : GivesUp c s (c.cleanup now).1

section Uses

variable {c c' : Container EventRecord} {past : List EventRecord} {a : Option EventRecord}

theorem Used.head_le (hu : Used c a c') (hc : c.Records past) : c.head ≤ c'.head := by
  rcases hu with _ | now | ⟨a, now⟩
  · exact le_rfl
  · rw [Container.head_cleanup]
    omega
  · exact Container.head_le_append hc a now

theorem Used.tail_le (hu : Used c a c') : c.tail ≤ c'.tail := by
  rcases hu with _ | now | ⟨a, now⟩
  · exact le_rfl
  · rw [Container.tail_cleanup]
  · rw [Container.tail_append]
    omega

/-- a container gives up a record to make room for another one, or because its time is over -/
theorem Used.givesUp (hu : Used c a c') (hc : c.Records past) {s : Int} (hh : c.head ≤ s) (hlost : s < c'.head) :
    GivesUp c s c' := by
  obtain ⟨l, hl, -⟩ := hc
  have hhead : c.head = l.dropped := hl.head
  rcases hu with _ | now | ⟨a, now⟩
  · omega
  · unfold Container.cleanup at hlost
    split at hlost
    · next hexpires =>
      obtain ⟨n, rfl⟩ := Int.eq_ofNat_of_zero_le (show 0 ≤ s by omega)
      obtain ⟨slot, hslot, hexpired⟩ := RingBuffer.expired_of_evicted hl hh hlost
      exact .expiry now hexpires slot hslot hexpired
    · exact absurd (lt_of_le_of_lt hh hlost) (lt_irrefl _)
  · have hdropped := hl.dropped_le
    have hfits := hl.fits
    have hsize : c.size = l.entries.length - l.dropped := by rw [Container.size, hl.size, Int.toNat_natCast]
    have hnew : (c.append a now).1.head = (l.append c.ring.capacity a (c.expiry now)).dropped := RingBuffer.head_add hl _ _
    simp only [Log.append, List.length_append, List.length_singleton] at hnew
    -- an append moves the head by one, and only if there is no room; so the record was at the head
    refine .overflow a now ?_ ?_
    · omega
    · omega

end Uses

/-! ## The record that a reader waits for -/

/-- the operation appends a record to a journal, under the sequence `s` -/
structure Appends (encode : ω → Except WireError Data) (f : Feed β) (op : Op ω β) (key : JournalKey) (s : Int) : Prop where
  next : ∃ c, f.store.live? key = some c ∧ s = c.tail + 1
  record : (op.appended? encode f key).isSome = true

/-- the journal retains the record under `s`, and gives it up with the operation -/
def Evicts (encode : ω → Except WireError Data) (f : Feed β) (op : Op ω β) (key : JournalKey) (s : Int) : Prop :=
  ∃ c c', f.store.live? key = some c ∧ c.head ≤ s ∧ s ≤ c.tail ∧
    (f.step encode op).1.store.live? key = some c' ∧ s < c'.head ∧ GivesUp c s c'

/-- the run wrote the record under `s` -/
def WrittenIn (encode : ω → Except WireError Data) (f : Feed β) (key : JournalKey) (s : Int) (ops : List (Op ω β)) : Prop :=
  ∃ pre w post, ops = pre ++ w :: post ∧ Appends encode (f.run encode pre).1 w key s

/-- the run wrote the record under `s`, and gave it up later -/
def LostIn (encode : ω → Except WireError Data) (f : Feed β) (key : JournalKey) (s : Int) (ops : List (Op ω β)) : Prop :=
  ∃ pre w mid e post, ops = pre ++ w :: (mid ++ e :: post) ∧ Appends encode (f.run encode pre).1 w key s ∧
    Evicts encode (f.run encode (pre ++ w :: mid)).1 e key s

/-- what became in a run of the sequence `s` that was the next one before it; `c` is the container after it -/
inductive Since (encode : ω → Except WireError Data) (f : Feed β) (key : JournalKey) (s : Int) (ops : List (Op ω β))
    (c : Container EventRecord) : Prop
  | next (hs : s = c.tail + 1)
  | retained (hh : c.head ≤ s) (ht : s ≤ c.tail) (hw : WrittenIn encode f key s ops)
  | lost (hh : s < c.head) (hl : LostIn encode f key s ops)

section Steps

variable {encode : ω → Except WireError Data} {f : Feed β} {past : JournalKey → List EventRecord} {id : String}
  {key : JournalKey} {r : Reader β} {watch : Watch} {op : Op ω β} {s : Int} {ops : List (Op ω β)}
  {c : Container EventRecord}

theorem WrittenIn.snoc (h : WrittenIn encode f key s ops) (op : Op ω β) : WrittenIn encode f key s (ops ++ [op]) := by
  obtain ⟨pre, w, post, rfl, happends⟩ := h
  exact ⟨pre, w, post ++ [op], by simp, happends⟩

theorem LostIn.snoc (h : LostIn encode f key s ops) (op : Op ω β) : LostIn encode f key s (ops ++ [op]) := by
  obtain ⟨pre, w, mid, e, post, rfl, happends, hevicts⟩ := h
  exact ⟨pre, w, mid, e, post ++ [op], by simp, happends, hevicts⟩

/-- a record that was written and is given up now is lost -/
theorem WrittenIn.lost (h : WrittenIn encode f key s ops) (hevicts : Evicts encode (f.run encode ops).1 op key s) :
    LostIn encode f key s (ops ++ [op]) := by
  obtain ⟨pre, w, post, rfl, happends⟩ := h
  exact ⟨pre, w, post, op, [], by simp, happends, hevicts⟩

/-- an operation that leaves the journal there takes the record one step on, at most -/
theorem since_step (h : (f.run encode ops).1.Sound past) (hc : (f.run encode ops).1.store.live? key = some c)
    (htorn : op.tearsDown (f.run encode ops).1 key = false) (hsince : Since encode f key s ops c) :
    ∃ c', (f.run encode (ops ++ [op])).1.store.live? key = some c' ∧
      (f.run encode (ops ++ [op])).1.store.handle? key = (f.run encode ops).1.store.handle? key ∧
      Since encode f key s (ops ++ [op]) c' := by
  obtain ⟨c', hc', hused, hhandle⟩ := h.stays htorn hc
  have hrecords := h.history.live hc
  have hhead := hused.head_le hrecords
  refine ⟨c', by rw [run_snoc, hc'], by rw [run_snoc, hhandle], ?_⟩
  -- where the record was before the operation
  rcases hsince with hs | ⟨hh, ht, hwritten⟩ | ⟨hh, hlost⟩
  · rcases happended : op.appended? encode (f.run encode ops).1 key with _ | a
    · rw [happended] at hused
      exact .next (hs.trans (congrArg (· + 1) hused.tail.symm))
    · rw [happended] at hused
      rcases hused with _ | _ | ⟨_, now⟩
      have hle := Container.head_append_le hrecords a now
      rw [Container.tail_append, ← hs] at hle
      refine .retained hle (le_of_eq hs) ?_
      exact ⟨ops, op, [], rfl, ⟨c, hc, hs⟩, by rw [happended]; rfl⟩
  · by_cases hlost : s < c'.head
    · exact .lost hlost (hwritten.lost ⟨c, c', hc, hh, ht, hc', hlost, hused.givesUp hrecords hh hlost⟩)
    · exact .retained (by omega) (le_trans ht hused.tail_le) (hwritten.snoc op)
  · exact .lost (by omega) (hlost.snoc op)

/-- **What became of the record that a parked reader waits for**, and that the journal is still the same, as long as the
reader is not cancelled. -/
theorem since_run (h : f.Sound past) (hc : f.store.live? r.key = some c) (hs : s = c.tail + 1)
    (hops : ∀ op ∈ ops, op.keepsJournals = true) (hp : ∀ mid, mid <+: ops → (f.run encode mid).1.Parked id r watch)
    (hstand : (f.run encode ops).1.waits.isCancelled watch.waiter = false) :
    ∃ c', (f.run encode ops).1.store.live? r.key = some c' ∧
      (f.run encode ops).1.store.handle? r.key = f.store.handle? r.key ∧ Since encode f r.key s ops c' := by
  induction ops using List.reverseRecOn with
  | nil => exact ⟨c, hc, rfl, .next hs⟩
  | append_singleton ops op ih =>
    have hsound := sound_run encode h ops
    rw [run_snoc] at hstand
    have hparked := hp ops (List.prefix_append ops [op])
    have hkeeps : op.keepsJournals = true := hops op (by simp)
    obtain ⟨d, hd, hhandle, hsince⟩ := ih (fun op' hop' => hops op' (by simp [hop']))
      (fun mid hmid => hp mid (hmid.trans (List.prefix_append ops [op]))) (standing_of_step encode hsound.keyed hstand)
    have htorn := hsound.not_torn hkeeps hparked.job hparked.parked hstand
    obtain ⟨c', hc', hhandle', hsince'⟩ := since_step hsound hd htorn hsince
    exact ⟨c', hc', hhandle'.trans hhandle, hsince'⟩

end Steps

/-! ## What a poll says to a parked reader -/

/-- the answers that a parked reader of a key can get -/
inductive Expected (key : JournalKey) : Progress β → Prop
  | pending : Expected key .pending
  | batch (result : Batch EventRecord β) : Expected key (.finished (.ok result))
  | destroyed : Expected key (.finished (.error (.destroyed key.ns.object key.part)))
  | stale (s head : Int) : Expected key (.finished (.error (.staleSequence s head)))

section Polls

variable {f : Feed β} {past : JournalKey → List EventRecord} {id : String} {key : JournalKey} {first : Int}
  {b : Batch EventRecord β} {r : Reader β} {watch : Watch}

/-- what is known of a tracked reader that is parked -/
theorem Tracks.of_parked {records : List EventRecord} (ht : Tracks f records id key first b) (hp : f.Parked id r watch) :
    r.key = key ∧ (f.waits.isCancelled watch.waiter = false →
      (∃ c, f.store.live? key = some c) ∧ Reached records first b r.position r.batch ∧ r.batch.full = false) := by
  have hjob := hp.job
  have hparked := hp.parked
  rcases ht with hno | hfresh | ⟨position, b', watch', hr, hs⟩
  · exact absurd hjob (hno r)
  · rw [hjob] at hfresh
    cases hfresh
    cases hparked
  · rw [hjob] at hr
    cases hr
    cases hparked
    exact ⟨rfl, hs⟩

/-- a parked reader that was not cancelled is served from its journal -/
theorem went_of_standing (h : f.Sound past) (ht : Tracks f (past key) id key first b) (hp : f.Parked id r watch)
    (hstand : f.waits.isCancelled watch.waiter = false) :
    ∃ c, f.store.live? key = some c ∧ Went f id r c (past key) first b (f.poll id) := by
  obtain ⟨rfl, hserved⟩ := ht.of_parked hp
  obtain ⟨⟨c, hc⟩, hreached, hfull⟩ := hserved hstand
  have hwatching := h.watching id r watch hp.job hp.parked
  have hready : Ready (past r.key) first b r.position r.batch := ⟨fun _ _ => hreached, hfull⟩
  obtain ⟨s, n, -, hn, hstretch⟩ := hreached
  have hbound := hstretch.bound
  refine ⟨c, hc, poll_went h hwatching.registered hc hp.job hready (by omega) ?_⟩
  intro watch' hp'
  obtain rfl : watch' = watch := Option.some.inj (hp'.symm.trans hp.parked)
  exact hstand

/-- **A parked reader waits on, or has its batch, or fails in one of two ways.** -/
theorem expected_of_poll (h : f.Sound past) (ht : Tracks f (past key) id key first b) (hp : f.Parked id r watch)
    {p : Progress β} (hpoll : (f.poll id).2 = some p) : Expected key p := by
  rcases hc : f.waits.isCancelled watch.waiter with _ | _
  · obtain ⟨c, -, hwent⟩ := went_of_standing h ht hp hc
    generalize f.poll id = answer at hwent hpoll
    rcases hwent with _ | ⟨f', hs⟩ | ⟨f', result⟩ | _
    · cases hpoll
      exact .pending
    · cases hpoll
      exact .stale r.position c.head
    · cases hpoll
      exact .batch result
    · cases hpoll
      exact .pending
  · rw [poll_cancelled h hp.job hp.parked hc, (ht.of_parked hp).1] at hpoll
    cases hpoll
    exact .destroyed

/-- a poll of a reader that was not woken leaves it parked -/
theorem pending_of_asleep (hp : f.Parked id r watch) (hasleep : id ∉ f.wokenJobs) : (f.poll id).2 = some .pending := by
  rw [hp.woken_iff, Bool.not_eq_true] at hasleep
  simp [poll, hp.job, pollReader_parked hp.parked hasleep]

/-- a parked reader is told that its journal is gone exactly if it was cancelled -/
theorem destroyed_iff (h : f.Sound past) (ht : Tracks f (past key) id key first b) (hp : f.Parked id r watch) :
    (f.poll id).2 = some (.finished (.error (.destroyed key.ns.object key.part))) ↔
      f.waits.isCancelled watch.waiter = true := by
  constructor
  · intro hpoll
    by_contra hstand
    obtain ⟨c, -, hwent⟩ := went_of_standing h ht hp (by simpa using hstand)
    generalize f.poll id = answer at hwent hpoll
    rcases hwent with _ | _ | _ | _ <;> cases hpoll
  · intro hc
    rw [← (ht.of_parked hp).1]
    exact poll_cancelled h hp.job hp.parked hc

/-- **Exactly when a parked reader is told that it is too late**, and what it is told. -/
theorem stale_iff (h : f.Sound past) (ht : Tracks f (past key) id key first b) (hp : f.Parked id r watch) (s head : Int) :
    (f.poll id).2 = some (.finished (.error (.staleSequence s head))) ↔
      id ∈ f.wokenJobs ∧ f.waits.isCancelled watch.waiter = false ∧
        ∃ c, f.store.live? key = some c ∧ r.position < c.head ∧ s = r.position ∧ head = c.head := by
  constructor
  · intro hpoll
    have hwoken : id ∈ f.wokenJobs := by
      by_contra hasleep
      rw [pending_of_asleep hp hasleep] at hpoll
      cases hpoll
    have hstand : f.waits.isCancelled watch.waiter = false := by
      by_contra hc
      rw [poll_cancelled h hp.job hp.parked (by simpa using hc)] at hpoll
      cases hpoll
    obtain ⟨c, hc, hwent⟩ := went_of_standing h ht hp hstand
    refine ⟨hwoken, hstand, c, hc, ?_⟩
    generalize f.poll id = answer at hwent hpoll
    rcases hwent with _ | ⟨f', hs⟩ | _ | _
    · cases hpoll
    · cases hpoll
      exact ⟨hs, rfl, rfl⟩
    · cases hpoll
    · cases hpoll
  · rintro ⟨hwoken, hstand, c, hc, hlt, rfl, rfl⟩
    obtain ⟨d, hd, hwent⟩ := went_of_standing h ht hp hstand
    obtain rfl : c = d := Option.some.inj (hc.symm.trans hd)
    rw [hp.woken_iff] at hwoken
    generalize f.poll id = answer at hwent ⊢
    rcases hwent with ⟨watch', hp', hasleep⟩ | _ | ⟨_, _, _, hh⟩ | ⟨_, _, _, hh⟩
    · obtain rfl : watch' = watch := Option.some.inj (hp'.symm.trans hp.parked)
      rw [hwoken] at hasleep
      cases hasleep
    · rfl
    · omega
    · omega

/-- **A record that a parked reader waited for and that is not retained any more was written and given up since the
reader's last park**, on the same journal. -/
theorem lost_of_stale {encode : ω → Except WireError Data} (h : f.Sound past)
    (hnew : f.jobs.get? id = some (.reader ⟨key, first, b, none⟩)) {ops : List (Op ω β)}
    (hops : ∀ op ∈ ops, op.spares id = true) (hp : (f.run encode ops).1.Parked id r watch) (hk : r.key = key)
    (hstand : (f.run encode ops).1.waits.isCancelled watch.waiter = false) {c : Container EventRecord}
    (hc : (f.run encode ops).1.store.live? key = some c) (hlt : r.position < c.head) :
    ∃ pre post, ops = pre ++ .poll id :: post ∧ LastPark encode (f.run encode pre).1 post id r watch ∧
      (f.run encode ops).1.store.handle? key = ((f.run encode pre).1.poll id).1.store.handle? key ∧
      LostIn encode ((f.run encode pre).1.poll id).1 key r.position post := by
  obtain rfl := hk
  -- the last park comes after the start, when the reader was not parked yet
  have hunparked : ∀ r watch, ¬ f.Parked id r watch := by
    intro r₀ watch₀ hp₀
    have hjob := hp₀.job
    rw [hnew] at hjob
    cases hjob
    cases hp₀.parked
  obtain ⟨pre, post, rfl, hlast⟩ := last_park h hunparked hp
  have hrun : (f.run encode (pre ++ .poll id :: post)).1 = (((f.run encode pre).1.poll id).1.run encode post).1 := by
    rw [run_append, ← step_poll encode]
    rfl
  rw [hrun] at hstand hc ⊢
  have hsound := sound_step encode (sound_run encode h pre) (.poll id)
  rw [step_poll] at hsound
  obtain ⟨d, hd, hposition⟩ := hlast.behind
  have hkeeps : ∀ op ∈ post, op.keepsJournals = true := fun op hop => keepsJournals_of_spares (hops op (by simp [hop]))
  obtain ⟨c', hc', hhandle, hsince⟩ := since_run hsound hd hposition hkeeps hlast.unchanged hstand
  obtain rfl : c = c' := Option.some.inj (hc.symm.trans hc')
  refine ⟨pre, post, rfl, hlast, hhandle, ?_⟩
  have htail := (sound_run encode hsound post).history.live hc |>.head_le
  rcases hsince with hs | ⟨hh, -, -⟩ | ⟨-, hlost⟩
  · omega
  · omega
  · exact hlost

end Polls

/-- what is known of an answer `p` to a parked reader, after the run `ops` from `start`; the reader began at `first` with
the batch `b` -/
structure Told (encode : ω → Except WireError Data) (start : Feed β) (ops : List (Op ω β)) (id : String) (key : JournalKey)
    (first : Int) (b : Batch EventRecord β) (p : Progress β) (r : Reader β) (watch : Watch) : Prop where
  parked : (start.run encode ops).1.Parked id r watch
  own : r.key = key
  expected : Expected key p
  destroyed : p = .finished (.error (.destroyed key.ns.object key.part)) ↔
    (start.run encode ops).1.waits.isCancelled watch.waiter = true
  stale : ∀ s head, p = .finished (.error (.staleSequence s head)) ↔
    id ∈ (start.run encode ops).1.wokenJobs ∧ (start.run encode ops).1.waits.isCancelled watch.waiter = false ∧
      ∃ c, (start.run encode ops).1.store.live? key = some c ∧ r.position < c.head ∧ s = r.position ∧ head = c.head
  /-- the sequence that the reader is told is the first that it did not visit; since the reader's last park the journal has
  been the same, and the record under that sequence was written to it and given up -/
  missed : ∀ s head, p = .finished (.error (.staleSequence s head)) →
    Reached (recorded encode key start [] ops) first b s r.batch ∧
      ∃ pre post, ops = pre ++ .poll id :: post ∧ LastPark encode (start.run encode pre).1 post id r watch ∧
        (start.run encode ops).1.store.handle? key = ((start.run encode pre).1.poll id).1.store.handle? key ∧
        LostIn encode ((start.run encode pre).1.poll id).1 key s post

/-- **A parked reader can fail in two ways only.** A reader that was started and was once left pending by a poll is told,
at every later poll that finds it, to wait on, or its batch, or that its journal was torn down, or that it is too late. It
is too late exactly if the reader was woken, was not cancelled, and its position is no longer retained; then the record
there was written and given up after the reader's last park. -/
theorem parked_failures (encode : ω → Except WireError Data) (resolver : Resolver) (registered : Bool)
    (before between : List (Op ω β)) (id : String) (key : JournalKey) (first : Int) (b : Batch EventRecord β)
    (hsizes : b.minSize ≤ b.maxSize) (hspares : ∀ op ∈ between, op.spares id = true) :
    let start : Feed β := init resolver registered
    let ops := before ++ .startReader id key first b :: between
    ∀ pre post, between = pre ++ .poll id :: post →
      ((start.run encode (before ++ .startReader id key first b :: pre)).1.poll id).2 = some .pending →
      ∀ p, ((start.run encode ops).1.poll id).2 = some p → ∃ r watch, Told encode start ops id key first b p r watch := by
  intro start ops pre post hbetween hpending p hpoll
  have hbefore : (start.run encode before).1.Sound _ := sound_run encode (sound_init resolver registered) before
  have hstarted := sound_step encode hbefore (.startReader id key first b)
  have hfirst : ((start.run encode before).1.step encode (.startReader id key first b)).1.jobs.get? id =
      some (.reader ⟨key, first, b, none⟩) := Table.get?_set_self _ _ _
  have hrun : ∀ mid, (start.run encode (before ++ .startReader id key first b :: mid)).1 =
      (((start.run encode before).1.step encode (.startReader id key first b)).1.run encode mid).1 := by
    intro mid
    rw [run_append]
    rfl
  obtain ⟨r, watch, hp⟩ : ∃ r watch, (start.run encode ops).1.Parked id r watch := by
    obtain ⟨job, hjob⟩ := job_of_poll hpoll
    have hwaits : job.waits = true := by
      rw [hrun] at hpending hjob
      subst hbetween
      exact waits_since_pending hstarted hfirst hspares hpending hjob
    obtain ⟨r, watch, rfl, hparked⟩ := Job.waits_iff.1 hwaits
    exact ⟨r, watch, hjob, hparked⟩
  have hroom : b.full = false := room_of_parked hstarted hsizes hfirst hspares (hrun between ▸ hp)
  obtain ⟨h, ht⟩ := tracks_of_run encode resolver registered before between id key first hroom hspares
  have hsome : ∀ q, p = q ↔ ((start.run encode ops).1.poll id).2 = some q := by
    intro q
    rw [hpoll, Option.some.injEq]
  obtain ⟨hkey, hserved⟩ := ht.of_parked hp
  refine ⟨r, watch, hp, hkey, expected_of_poll h ht hp hpoll, ?_, ?_, ?_⟩
  · rw [hsome]
    exact destroyed_iff h ht hp
  · intro s head
    rw [hsome]
    exact stale_iff h ht hp s head
  · intro s head hstale
    rw [hsome, stale_iff h ht hp] at hstale
    obtain ⟨-, hstand, c, hc, hlt, rfl, rfl⟩ := hstale
    obtain ⟨-, hreached, -⟩ := hserved hstand
    refine ⟨hreached, ?_⟩
    rw [hrun] at hp hstand hc
    obtain ⟨pre, post, hsplit, hlast, hhandle, hlost⟩ := lost_of_stale hstarted hfirst hspares hp hkey hstand hc hlt
    refine ⟨before ++ .startReader id key first b :: pre, post, ?_, ?_, ?_, ?_⟩
    · simp [ops, hsplit]
    · rw [hrun]
      exact hlast
    · rw [hrun, hrun]
      exact hhandle
    · rw [hrun]
      exact hlost

/-- one order, and a reader that waits for the next -/
def orderReader : List (Op Data Data) := [addOrder 0, .startReader "r" ordersKey 1 oneBatch]

/-- after its first poll five orders come, one more than the journal can hold, under other settings -/
def orderRush : List (Op Data Data) :=
  [.poll "r", .setRegistry fun _ => none, .setVersion ⟨3, 8⟩, .setPartitions 0, addOrder 1, addOrder 2, addOrder 3,
    addOrder 4, addOrder 5]

/-- the reader is told that the order it waited for is lost, and it is -/
theorem parked_failures_rush :
    (∀ op ∈ orderRush, op.spares "r" = true) ∧
      ((run .ok (init smallResolver true : Feed Data) orderReader).1.poll "r").2 = some .pending ∧
      ((run .ok (init smallResolver true : Feed Data) (orderReader ++ orderRush)).1.poll "r").2 =
        some (.finished (.error (.staleSequence 1 2))) ∧
      ∃ r watch, Told .ok (init smallResolver true) (orderReader ++ orderRush) "r" ordersKey 1 oneBatch
        (.finished (.error (.staleSequence 1 2))) r watch := by
  have hspares : ∀ op ∈ orderRush, op.spares "r" = true := by decide
  have hpending : ((run .ok (init smallResolver true : Feed Data) orderReader).1.poll "r").2 = some .pending := rfl
  have hstale : ((run .ok (init smallResolver true : Feed Data) (orderReader ++ orderRush)).1.poll "r").2 =
      some (.finished (.error (.staleSequence 1 2))) := rfl
  refine ⟨hspares, hpending, hstale, ?_⟩
  exact parked_failures .ok smallResolver true [addOrder 0] orderRush "r" ordersKey 1 oneBatch (by decide) hspares [] _ rfl
    hpending _ hstale

end Feed

end Changefeed
