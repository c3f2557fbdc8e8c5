/-
No wake-up is lost. A reader that is parked and was not woken since its last poll has nothing to do: its journal is there,
the one it started on, and ends just before the sequence that the reader needs. Every write that appends to the journal
wakes it, and so does tearing the journal down; what happens to other journals does not.

Containers that are discarded or appended to behind the feed's back wake nobody; runs without that are `announced`.

Results:
- `attentive_run`: a parked reader that was not cancelled has its journal, and one that was not woken stands at its end;
- `ready_step`: an operation wakes a sleeping reader exactly if it rouses the key that the reader waits under;
- `handle_run`, `handle_since`: a parked reader keeps the container it was parked on, unless it is cancelled;
- `no_lost_wakeup`: all of it, for every run.
-/
import Changefeed.Proofs.Sound

namespace Changefeed

variable {ω β : Type}

/-- the operation discards no container and appends to none without waking the readers of the journal -/
def Op.announced : Op ω β → Bool
  | .discard _ => false
  | .append .. => false
  | _ => true

theorem keepsJournals_of_announced {op : Op ω β} (h : op.announced = true) : op.keepsJournals = true := by
  cases op with
  | discard key => cases h
  | _ => rfl

theorem rouses_of_appended {encode : ω → Except WireError Data} {f : Feed β} {key : JournalKey} {op : Op ω β}
    (hop : op.announced = true) (h : (op.appended? encode f key).isSome = true) : op.rouses encode f key = true := by
  cases op with
  | write k now change => exact h
  | append handle record now => cases hop
  | _ => cases h

/-- an operation rouses no journal but its own -/
theorem journal?_of_rouses {encode : ω → Except WireError Data} {f : Feed β} (hkeyed : f.store.Keyed) {key : JournalKey}
    {op : Op ω β} (h : op.rouses encode f key = true) : op.journal? = some key := by
  cases op with
  | write k now change =>
    by_cases hk : k = key
    · rw [hk]
      rfl
    · simp [Op.rouses, Op.appended?, hk] at h
  | destroy k => rw [← (of_decide_eq_true h).1]; rfl
  | wake k => rw [← of_decide_eq_true h]; rfl
  | wakeContainer handle =>
    obtain ⟨c, hc, hk⟩ := (Option.any_eq_true _ _).1 h
    rw [← of_decide_eq_true hk, hkeyed handle.key handle.generation c hc]
    rfl
  | cancel k => rw [← of_decide_eq_true h]; rfl
  | _ => cases h

namespace Feed

/-- the job is a parked reader -/
structure Parked (f : Feed β) (id : String) (r : Reader β) (watch : Watch) : Prop where
  job : f.jobs.get? id = some (.reader r)
  parked : r.parked = some watch

theorem mem_wokenJobs {f : Feed β} {id : String} :
    id ∈ f.wokenJobs ↔ ∃ job, f.jobs.get? id = some job ∧ f.woken job = true := by
  unfold wokenJobs
  rw [(List.mergeSort_perm _ _).mem_iff, List.mem_map]
  constructor
  · rintro ⟨⟨id', job⟩, hmem, rfl⟩
    obtain ⟨hentry, hwoken⟩ := List.mem_filter.1 hmem
    exact ⟨job, (Table.mem_entries_iff _ _ _).1 hentry, hwoken⟩
  · rintro ⟨job, hjob, hwoken⟩
    exact ⟨(id, job), List.mem_filter.2 ⟨(Table.mem_entries_iff _ _ _).2 hjob, hwoken⟩, rfl⟩

/-- a parked reader is woken if its watch is ready -/
theorem Parked.woken_iff {f : Feed β} {id : String} {r : Reader β} {watch : Watch} (h : f.Parked id r watch) :
    id ∈ f.wokenJobs ↔ f.waits.ready watch = true := by
  rw [mem_wokenJobs]
  constructor
  · rintro ⟨job, hjob, hwoken⟩
    rw [h.job] at hjob
    cases hjob
    simpa [woken, h.parked] using hwoken
  · intro hready
    exact ⟨.reader r, h.job, by simpa [woken, h.parked] using hready⟩

section Steps

variable {encode : ω → Except WireError Data} {f : Feed β} {past : JournalKey → List EventRecord} {op : Op ω β}
  {id : String} {r : Reader β} {watch : Watch}

/-- a parked reader that was not woken was not cancelled either -/
theorem Sound.standing (h : f.Sound past) (hp : f.Parked id r watch) (hready : f.waits.ready watch = false) :
    f.waits.isCancelled watch.waiter = false := by
  by_contra hcancelled
  have hwoken := (h.watching id r watch hp.job hp.parked).cancelled (by simpa using hcancelled)
  rw [hready] at hwoken
  cases hwoken

/-- **Waking is exact for a sleeping reader.** An operation wakes it if it rouses its key, and otherwise not. -/
theorem ready_step (h : f.Sound past) (hp : f.Parked id r watch) (hready : f.waits.ready watch = false) (op : Op ω β) :
    (f.step encode op).1.waits.ready watch = op.rouses encode f r.key := by
  have hwatching := h.watching id r watch hp.job hp.parked
  have hcur := h.current hp.job hp.parked (h.standing hp hready)
  have hseen := hwatching.seen
  simp only [WaitRegistry.ready, decide_eq_false_iff_not] at hready
  simp only [WaitRegistry.ready, (step_signals encode h.keyed op watch.waiter).wakeups, hwatching.key]
  cases op.rouses encode f r.key with
  | true =>
    rw [if_pos ⟨rfl, hcur⟩, decide_eq_true_eq]
    omega
  | false =>
    rw [if_neg fun hno => Bool.false_ne_true hno.1, decide_eq_false_iff_not]
    omega

/-- a reader that was woken stays so until it is polled -/
theorem ready_of_ready (hkeyed : f.store.Keyed) (hready : f.waits.ready watch = true) (op : Op ω β) :
    (f.step encode op).1.waits.ready watch = true := by
  simp only [WaitRegistry.ready, decide_eq_true_eq] at hready ⊢
  rw [(step_signals encode hkeyed op watch.waiter).wakeups]
  omega

/-- an operation that rouses a key wakes every reader parked there -/
theorem woken_of_rouses (h : f.Sound past) (hp : f.Parked id r watch) (hop : op.job? ≠ some id)
    (hrouses : op.rouses encode f r.key = true) : id ∈ (f.step encode op).1.wokenJobs := by
  have hp' : (f.step encode op).1.Parked id r watch := ⟨(step_reader_of_ne encode h.keyed hop r).2 hp.job, hp.parked⟩
  rw [hp'.woken_iff]
  cases hready : f.waits.ready watch with
  | true => exact ready_of_ready h.keyed hready op
  | false => rw [ready_step h hp hready op, hrouses]

end Steps

/-! ## Where a sleeping reader stands -/

/-- a parked reader that was not cancelled has its journal, and one that was not woken stands just behind the tail -/
def Attentive (f : Feed β) (id : String) : Prop :=
  ∀ r watch, f.Parked id r watch → f.waits.isCancelled watch.waiter = false →
    ∃ c, f.store.live? r.key = some c ∧ (f.waits.ready watch = false → r.position = c.tail + 1)

theorem attentive_init (resolver : Resolver) (registered : Bool) (id : String) :
    (init resolver registered : Feed β).Attentive id := by
  intro r watch hp
  cases hp.job

theorem attentive_step {encode : ω → Except WireError Data} {f : Feed β} {past : JournalKey → List EventRecord}
    (h : f.Sound past) {id : String} (ha : f.Attentive id) {op : Op ω β} (hop : op.announced = true) :
    (f.step encode op).1.Attentive id := by
  intro r watch hp hstand
  cases step_stands encode h.keyed h.history.ringed hp.job with
  | other hne hr =>
    have hbefore : f.Parked id r watch := ⟨hr, hp.parked⟩
    obtain ⟨c, hc, hposition⟩ := ha r watch hbefore (standing_of_step encode h.keyed hstand)
    have htorn := h.not_torn (keepsJournals_of_announced hop) hr hp.parked hstand
    obtain ⟨c', hc', hused, -⟩ := h.stays htorn hc
    refine ⟨c', hc', ?_⟩
    intro hready
    have hasleep : f.waits.ready watch = false := by
      cases hwas : f.waits.ready watch with
      | false => rfl
      | true => rw [← hready, ready_of_ready h.keyed hwas op]
    -- what is appended would have woken the reader
    have hnone : op.appended? encode f r.key = none := by
      rw [ready_step h hbefore hasleep op] at hready
      by_contra hsome
      have hrouses := rouses_of_appended hop (Option.isSome_iff_ne_none.2 hsome)
      rw [hready] at hrouses
      cases hrouses
    rw [hnone] at hused
    rw [hused.tail]
    exact hposition hasleep
  | still _ hf hr =>
    rw [hf] at hstand ⊢
    exact ha r watch ⟨hr, hp.parked⟩ hstand
  | started _ => cases hp.parked
  | parked _ hr he ho hf =>
    obtain ⟨c, hparks⟩ := ho.parks
    have hfound := hparks.found
    rw [he.key h hr] at hfound
    obtain ⟨-, hlive, -⟩ := live_of_container? hfound
    rw [hf]
    exact ⟨c, hlive, fun _ => hparks.position⟩

theorem attentive_run {encode : ω → Except WireError Data} {f : Feed β} {past : JournalKey → List EventRecord}
    (h : f.Sound past) {id : String} (ha : f.Attentive id) {ops : List (Op ω β)}
    (hops : ∀ op ∈ ops, op.announced = true) : (f.run encode ops).1.Attentive id := by
  induction ops generalizing f past with
  | nil => exact ha
  | cons op ops ih =>
    have hop := hops op List.mem_cons_self
    apply ih (sound_step encode h op)
    · exact attentive_step h ha hop
    · intro op' hop'
      exact hops op' (List.mem_cons_of_mem op hop')

/-! ## The container that a reader is parked on -/

/-- a parked reader is still the same one, on the same container unless it was cancelled -/
structure Stayed (f : Feed β) (r : Reader β) (watch : Watch) (f' : Feed β) (r' : Reader β) (watch' : Watch) : Prop where
  key : r'.key = r.key
  waiter : watch'.waiter = watch.waiter
  standing : f'.waits.isCancelled watch'.waiter = false → f.waits.isCancelled watch.waiter = false
  handle : f'.waits.isCancelled watch'.waiter = false → f'.store.handle? r'.key = f.store.handle? r.key

theorem Stayed.trans {f f' f'' : Feed β} {r r' r'' : Reader β} {watch watch' watch'' : Watch}
    (h : Stayed f r watch f' r' watch') (h' : Stayed f' r' watch' f'' r'' watch'') :
    Stayed f r watch f'' r'' watch'' :=
  ⟨h'.key.trans h.key, h'.waiter.trans h.waiter, fun hs => h.standing (h'.standing hs),
    fun hs => (h'.handle hs).trans (h.handle (h'.standing hs))⟩

theorem handle_step {encode : ω → Except WireError Data} {f : Feed β} {past : JournalKey → List EventRecord}
    (h : f.Sound past) {id : String} (ha : f.Attentive id) {op : Op ω β} (hop : op.announced = true) {r r' : Reader β}
    {watch watch' : Watch} (hp : f.Parked id r watch) (hp' : (f.step encode op).1.Parked id r' watch') :
    Stayed f r watch (f.step encode op).1 r' watch' := by
  -- as long as the reader stands, its live container stays
  have hstays : (f.step encode op).1.waits.isCancelled watch.waiter = false →
      (f.step encode op).1.store.handle? r.key = f.store.handle? r.key := by
    intro hstand
    obtain ⟨c, hc, -⟩ := ha r watch hp (standing_of_step encode h.keyed hstand)
    have htorn := h.not_torn (keepsJournals_of_announced hop) hp.job hp.parked hstand
    obtain ⟨-, -, -, hhandle⟩ := h.stays htorn hc
    exact hhandle
  have hjob := hp.job
  have hparked := hp.parked
  -- a reader that was not polled is what it was
  have hkept : f.jobs.get? id = some (.reader r') → r'.key = r.key ∧ watch'.waiter = watch.waiter := by
    intro hr
    rw [hjob] at hr
    cases hr
    rw [hp'.parked] at hparked
    cases hparked
    exact ⟨rfl, rfl⟩
  have hsame : r'.key = r.key ∧ watch'.waiter = watch.waiter := by
    cases step_stands encode h.keyed h.history.ringed hp'.job with
    | other _ hr => exact hkept hr
    | still _ _ hr => exact hkept hr
    | started _ => cases hp'.parked
    | parked _ hr he ho _ =>
      rw [hjob] at hr
      cases hr
      obtain ⟨c, hparks⟩ := ho.parks
      cases hp'.parked
      refine ⟨rfl, ?_⟩
      rw [hparks.watch]
      cases he with
      | woken _ hw _ =>
        rw [hparked] at hw
        cases hw
        rfl
      | first hn =>
        rw [hparked] at hn
        cases hn
  obtain ⟨hkey, hwaiter⟩ := hsame
  refine ⟨hkey, hwaiter, ?_, ?_⟩
  · rw [hwaiter]
    exact standing_of_step encode h.keyed
  · rw [hwaiter, hkey]
    exact hstays

/-- **A parked reader keeps its container**, whatever is done, until it finishes, is dropped or is cancelled. -/
theorem handle_run {encode : ω → Except WireError Data} {f : Feed β} {past : JournalKey → List EventRecord}
    (h : f.Sound past) {id : String} (ha : f.Attentive id) {ops : List (Op ω β)}
    (hops : ∀ op ∈ ops, op.announced = true)
    (hall : ∀ mid, mid <+: ops → ∃ r watch, (f.run encode mid).1.Parked id r watch) {r r' : Reader β}
    {watch watch' : Watch} (hp : f.Parked id r watch) (hp' : (f.run encode ops).1.Parked id r' watch') :
    Stayed f r watch (f.run encode ops).1 r' watch' := by
  induction ops generalizing f past r watch with
  | nil =>
    have hjob := hp'.job
    have hparked := hp'.parked
    simp only [run] at hjob ⊢
    rw [hp.job] at hjob
    cases hjob
    rw [hp.parked] at hparked
    cases hparked
    exact ⟨rfl, rfl, fun hstand => hstand, fun _ => rfl⟩
  | cons op ops ih =>
    have hop := hops op List.mem_cons_self
    obtain ⟨r₁, watch₁, hp₁⟩ := hall [op] (List.cons_prefix_cons.2 ⟨rfl, List.nil_prefix⟩)
    have hstep := handle_step h ha hop hp hp₁
    apply hstep.trans
    apply ih (sound_step encode h op) (attentive_step h ha hop)
    · intro op' hop'
      exact hops op' (List.mem_cons_of_mem op hop')
    · intro mid hmid
      exact hall (op :: mid) (List.cons_prefix_cons.2 ⟨rfl, hmid⟩)
    · exact hp₁
    · exact hp'

/-- the container under a reader that stands is the one under which it was parked at any moment before -/
theorem handle_since {encode : ω → Except WireError Data} {f : Feed β} {past : JournalKey → List EventRecord}
    (h : f.Sound past) {id : String} (ha : f.Attentive id) {ops pre post : List (Op ω β)}
    (hops : ∀ op ∈ ops, op.announced = true) (hsplit : ops = pre ++ post)
    (hall : ∀ mid, mid <+: post → ∃ r watch, (f.run encode (pre ++ mid)).1.Parked id r watch) {r : Reader β}
    {watch : Watch} (hp : (f.run encode ops).1.Parked id r watch)
    (hstand : (f.run encode ops).1.waits.isCancelled watch.waiter = false) :
    (f.run encode ops).1.store.handle? r.key = (f.run encode pre).1.store.handle? r.key := by
  subst hsplit
  have hpre : ∀ op ∈ pre, op.announced = true := by
    intro op hop
    exact hops op (List.mem_append_left _ hop)
  have hpost : ∀ op ∈ post, op.announced = true := by
    intro op hop
    exact hops op (List.mem_append_right _ hop)
  have hmid : ∀ mid, (f.run encode (pre ++ mid)).1 = ((f.run encode pre).1.run encode mid).1 := by
    intro mid
    rw [run_append]
  obtain ⟨r₀, watch₀, hp₀⟩ := hall [] List.nil_prefix
  rw [List.append_nil] at hp₀
  rw [hmid post] at hp hstand ⊢
  have hparked : ∀ mid, mid <+: post → ∃ r watch, ((f.run encode pre).1.run encode mid).1.Parked id r watch := by
    intro mid hprefix
    rw [← hmid mid]
    exact hall mid hprefix
  have hstayed := handle_run (sound_run encode h pre) (attentive_run h ha hpre) hpost hparked hp₀ hp
  rw [hstayed.handle hstand, hstayed.key]

/-! ## No lost wake-up -/

/-- what is known of a parked reader that was not woken since its last poll -/
structure Asleep (f : Feed β) (r : Reader β) (watch : Watch) (c : Container EventRecord) : Prop where
  live : f.store.live? r.key = some c
  /-- the next sequence that the reader needs is the next one to be written -/
  position : r.position = c.tail + 1
  wanting : r.batch.kept.size < r.batch.minSize
  standing : f.waits.isCancelled watch.waiter = false
  /-- if it looked again, it would park again -/
  again : turns watch.waiter 2 f r.position r.batch =
    (f, .parked (f.waits.watch watch.waiter) r.position r.batch)

theorem asleep_of_parked {f : Feed β} {past : JournalKey → List EventRecord} (h : f.Sound past) {id : String}
    (ha : f.Attentive id) {r : Reader β} {watch : Watch} (hp : f.Parked id r watch) (hasleep : id ∉ f.wokenJobs) :
    ∃ c, Asleep f r watch c := by
  rw [hp.woken_iff, Bool.not_eq_true] at hasleep
  have hwatching := h.watching id r watch hp.job hp.parked
  have hstand := h.standing hp hasleep
  obtain ⟨c, hc, hposition⟩ := ha r watch hp hstand
  have hlive : f.store.live? watch.waiter.key = some c := by rw [hwatching.key, hc]
  refine ⟨c, hc, hposition hasleep, ?_, hstand, ?_⟩
  · simpa [Batch.satisfied] using hwatching.wanting
  · have hturn := turn_behind_tail hwatching.registered hlive hstand (h.history.live hc).head_le r.batch
    rw [hposition hasleep]
    simp only [turns, hturn, hwatching.wanting, Bool.false_eq_true, if_false]

/-- **No wake-up is lost.** After any announced run:
- a parked reader that was not woken since its last poll has nothing to do (`Asleep`), and is still on the container that
  it was first parked on;
- a write that appends to a journal wakes every reader parked on it;
- so does tearing the journal down;
- an operation on another journal, or on another job, does not wake it. -/
theorem no_lost_wakeup (encode : ω → Except WireError Data) (resolver : Resolver) (registered : Bool)
    (ops : List (Op ω β)) (hops : ∀ op ∈ ops, op.announced = true) :
    let start : Feed β := init resolver registered
    let f := (start.run encode ops).1
    (∀ id r watch, f.Parked id r watch → id ∉ f.wokenJobs → ∃ c, Asleep f r watch c) ∧
    (∀ id r watch, f.Parked id r watch → id ∉ f.wokenJobs → ∀ pre post, ops = pre ++ post →
      (∀ mid, mid <+: post → ∃ r' watch', (start.run encode (pre ++ mid)).1.Parked id r' watch') →
      f.store.handle? r.key = (start.run encode pre).1.store.handle? r.key) ∧
    (∀ id r watch, f.Parked id r watch → ∀ now change,
      (Op.appended? encode f r.key (.write r.key now change : Op ω β)).isSome = true →
      id ∈ (f.step encode (.write r.key now change)).1.wokenJobs) ∧
    (∀ id r watch, f.Parked id r watch → f.registered = true →
      id ∈ (f.step encode (.destroy r.key : Op ω β)).1.wokenJobs) ∧
    (∀ id r watch, f.Parked id r watch → id ∉ f.wokenJobs → ∀ op : Op ω β, op.job? ≠ some id →
      op.journal? ≠ some r.key → id ∉ (f.step encode op).1.wokenJobs) := by
  intro start f
  have hinit : start.Sound fun _ => [] := sound_init resolver registered
  have hstart : ∀ id, start.Attentive id := attentive_init resolver registered
  have h : f.Sound fun key => recorded encode key start [] ops := sound_run encode hinit ops
  have ha : ∀ id, f.Attentive id := fun id => attentive_run hinit (hstart id) hops
  refine ⟨?_, ?_, ?_, ?_, ?_⟩
  · intro id r watch hp hasleep
    exact asleep_of_parked h (ha id) hp hasleep
  · intro id r watch hp hasleep pre post hsplit hall
    rw [hp.woken_iff, Bool.not_eq_true] at hasleep
    exact handle_since hinit (hstart id) hops hsplit hall hp (h.standing hp hasleep)
  · intro id r watch hp now change happended
    exact woken_of_rouses h hp (fun hno => by cases hno) happended
  · intro id r watch hp hregistered
    exact woken_of_rouses h hp (fun hno => by cases hno) (decide_eq_true ⟨rfl, hregistered⟩)
  · intro id r watch hp hasleep op hjob hjournal
    have hp' : (f.step encode op).1.Parked id r watch := ⟨(step_reader_of_ne encode h.keyed hjob r).2 hp.job, hp.parked⟩
    rw [hp.woken_iff, Bool.not_eq_true] at hasleep
    rw [hp'.woken_iff, ready_step h hp hasleep op, Bool.not_eq_true]
    by_contra hrouses
    exact hjournal (journal?_of_rouses h.keyed (by simpa using hrouses))

/-- wants one order -/
def oneBatch : Batch EventRecord Data := ⟨1, 1, none, Change.key, #[], 0, 0⟩

/-- the reader of the next lemma, parked behind the first order -/
def parkedReader : Reader Data := ⟨ordersKey, 1, oneBatch, some ⟨⟨ordersKey, 0⟩, 0⟩⟩

/-- a reader sleeps while a waiter on its key comes and goes and another journal is torn down, and a write wakes it -/
theorem no_lost_wakeup_orders :
    let ops : List (Op Data Data) := [addOrder 0, .startReader "r" ordersKey 1 oneBatch, .poll "r",
      .addWaiter "w" ordersKey, .dropWaiter "w", .destroy stocksKey]
    let f := (run .ok (init smallResolver true) ops).1
    (∀ op ∈ ops, op.announced = true) ∧ "r" ∉ f.wokenJobs ∧ (∃ c, Asleep f parkedReader ⟨⟨ordersKey, 0⟩, 0⟩ c) ∧
      "r" ∈ (f.step .ok (.write parkedReader.key 0 (.added [1] [1]) : Op Data Data)).1.wokenJobs ∧
      "r" ∈ (f.step .ok (.destroy parkedReader.key : Op Data Data)).1.wokenJobs := by
  intro ops f
  have hops : ∀ op ∈ ops, op.announced = true := by decide
  have hp : f.Parked "r" parkedReader ⟨⟨ordersKey, 0⟩, 0⟩ := ⟨rfl, rfl⟩
  have hasleep : "r" ∉ f.wokenJobs := by
    rw [hp.woken_iff]
    decide +kernel
  obtain ⟨hsleeps, -, hwrite, hdestroy, -⟩ := no_lost_wakeup .ok smallResolver true ops hops
  refine ⟨hops, hasleep, hsleeps _ _ _ hp hasleep, ?_, ?_⟩
  · exact hwrite _ _ _ hp 0 (.added [1] [1]) (by decide +kernel)
  · exact hdestroy _ _ _ hp (by decide +kernel)

end Feed

end Changefeed
