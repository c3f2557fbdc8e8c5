/-
When a reader was parked. A poll that leaves its job pending leaves a parked reader, which stays one until it finishes; and
every parked reader has a last park: a poll that found it awake, looked at the journal and left it just behind the tail,
since when nothing has changed it.

Results:
- `remains_run`: while nobody else names a job, a reader stays a reader, and a parked one stays parked;
- `waits_since_pending`: a reader that a poll has left pending is parked for as long as it is there;
- `last_park`: the last park of a parked reader;
- `room_of_parked`: a reader parks only with room in its batch.
-/
import Changefeed.Proofs.Consumption
import Changefeed.Proofs.Creation

namespace Changefeed

variable {ω β : Type}

/-- the job is a reader -/
def Job.reads : Job β → Bool
  | .reader _ => true
  | .watch .. => false

/-- the job is a parked reader -/
def Job.waits : Job β → Bool
  | .reader r => r.parked.isSome
  | .watch .. => false

theorem Job.waits_iff {job : Job β} : job.waits = true ↔ ∃ r watch, job = .reader r ∧ r.parked = some watch := by
  constructor
  · intro h
    rcases job with r | ⟨owner, watch, polled⟩
    · obtain ⟨watch, hp⟩ := Option.isSome_iff_exists.1 h
      exact ⟨r, watch, rfl, hp⟩
    · cases h
  · rintro ⟨r, watch, rfl, hp⟩
    simp [Job.waits, hp]

/-- a reader stays a reader, and a parked one stays parked -/
structure Job.Remains (job job' : Job β) : Prop where
  reads : job.reads = true → job'.reads = true
  waits : job.waits = true → job'.waits = true

theorem Job.Remains.refl (job : Job β) : job.Remains job := ⟨id, id⟩

theorem Job.Remains.trans {job job' job'' : Job β} (h : job.Remains job') (h' : job'.Remains job'') :
    job.Remains job'' :=
  ⟨fun hr => h'.reads (h.reads hr), fun hw => h'.waits (h.waits hw)⟩

namespace Batch

variable {α : Type}

/-- a scan into a batch without room reads nothing -/
theorem full_readMany {c : Container α} {s : Int} {b b' : Batch α β} {k : ℕ} (hf : b.full = true)
    (h : c.readMany s b = .ok (b', k)) : b'.full = true := by
  unfold Container.readMany at h
  rw [Container.offerFrom_full _ _ _ hf] at h
  cases hpos : c.checkPosition s with
  | error e =>
    rw [hpos] at h
    cases h
  | ok u =>
    rw [hpos] at h
    cases h
    exact hf

/-- a batch without room holds enough, if it does not ask for more than it can hold -/
theorem satisfied_of_full {b : Batch α β} (hle : b.minSize ≤ b.maxSize) (hf : b.full = true) : b.satisfied = true := by
  simp only [full, decide_eq_true_eq] at hf
  simp only [satisfied, decide_eq_true_eq]
  exact le_trans hle hf

end Batch

namespace Feed

variable {encode : ω → Except WireError Data} {f start : Feed β} {past : JournalKey → List EventRecord} {id : String}
  {key : JournalKey} {r : Reader β} {watch : Watch} {op : Op ω β}

/-! ## What a poll leaves -/

/-- a poll that does not end the job leaves it pending -/
theorem pending_of_kept (h : f.Ringed) (hjob : f.jobs.get? id = some (.reader r)) {job : Job β}
    (hkept : (f.poll id).1.jobs.get? id = some job) : (f.poll id).2 = some .pending := by
  obtain ⟨f', p, heq, hpolled⟩ := poll_polled h hjob
  rw [heq] at hkept ⊢
  cases hpolled with
  | asleep => rfl
  | ended => simp at hkept
  | parked => rfl

/-- **A poll of a reader ends it or leaves it parked.** -/
theorem parked_of_kept (h : f.Ringed) (hjob : f.jobs.get? id = some (.reader r)) {job : Job β}
    (hkept : (f.poll id).1.jobs.get? id = some job) : job.waits = true := by
  obtain ⟨f', p, heq, hpolled⟩ := poll_polled h hjob
  rw [heq] at hkept
  cases hpolled with
  | asleep watch hp =>
    rw [hjob] at hkept
    cases hkept
    exact Job.waits_iff.2 ⟨r, watch, rfl, hp⟩
  | ended => simp at hkept
  | parked =>
    simp only [Table.get?_set_self, Option.some.injEq] at hkept
    subst hkept
    rfl

theorem parked_of_pending (h : f.Ringed) (hjob : f.jobs.get? id = some (.reader r))
    (hpending : (f.poll id).2 = some .pending) : ∃ r' watch', (f.poll id).1.Parked id r' watch' := by
  obtain ⟨f', p, heq, hpolled⟩ := poll_polled h hjob
  rw [heq] at hpending ⊢
  cases hpolled with
  | asleep watch hp => exact ⟨r, watch, hjob, hp⟩
  | ended => cases hpending
  | parked => exact ⟨_, _, Table.get?_set_self _ _ _, rfl⟩

/-- **While nobody else names a job, it remains what it is**, as long as it is there. -/
theorem remains_step (h : f.Sound past) (hop : op.spares id = true) {job : Job β}
    (hjob : (f.step encode op).1.jobs.get? id = some job) : ∃ job₀, f.jobs.get? id = some job₀ ∧ job₀.Remains job := by
  have hsame : f.jobs.get? id = some job → ∃ job₀, f.jobs.get? id = some job₀ ∧ job₀.Remains job := by
    intro hbefore
    exact ⟨job, hbefore, .refl job⟩
  have hdropped : ∀ name, (f.dropWaiter name).1.jobs.get? id = some job → f.jobs.get? id = some job := by
    intro name hafter
    rcases dropWaiter_jobs f name with heq | heq
    · rwa [heq] at hafter
    · rw [heq, Table.get?_foldl_erase] at hafter
      split at hafter
      · cases hafter
      · exact hafter
  have haside : ∀ id', op.job? = some id' → id' ≠ id → f.jobs.get? id = some job := by
    intro id' hid hne
    rwa [(step_aside encode f hid).jobs id (Ne.symm hne)] at hjob
  cases henlists : op.enlists with
  | false =>
    rw [(step_apart encode h.keyed henlists).jobs] at hjob
    exact hsame hjob
  | true =>
    cases op with
    | startReader id' k s b => exact hsame (haside id' rfl (of_decide_eq_true hop))
    | drop id' => exact hsame (haside id' rfl (of_decide_eq_true hop))
    | startWatch id' name => exact hsame (haside id' rfl (of_decide_eq_true hop))
    | addWaiter name k => exact hsame (hdropped name hjob)
    | dropWaiter name => exact hsame (hdropped name hjob)
    | poll id' =>
      by_cases hid : id' = id
      · subst hid
        rw [step_poll] at hjob
        rcases hbefore : f.jobs.get? id' with _ | (r | ⟨owner, watch, polled⟩)
        · simp [poll, hbefore] at hjob
        · have hwaits := parked_of_kept h.history.ringed hbefore hjob
          obtain ⟨r', watch', rfl, -⟩ := Job.waits_iff.1 hwaits
          exact ⟨.reader r, rfl, fun _ => rfl, fun _ => hwaits⟩
        · refine ⟨.watch owner watch polled, rfl, ?_, ?_⟩
          · intro hno
            cases hno
          · intro hno
            cases hno
      · exact hsame (haside id' rfl hid)
    | _ => cases henlists

theorem remains_run (h : f.Sound past) {ops : List (Op ω β)} (hops : ∀ op ∈ ops, op.spares id = true) {job : Job β}
    (hjob : (f.run encode ops).1.jobs.get? id = some job) : ∃ job₀, f.jobs.get? id = some job₀ ∧ job₀.Remains job := by
  induction ops generalizing f past with
  | nil => exact ⟨job, hjob, .refl job⟩
  | cons op ops ih =>
    have hrest : ∀ op' ∈ ops, op'.spares id = true := fun op' hop' => hops op' (List.mem_cons_of_mem op hop')
    obtain ⟨job₁, hjob₁, hremains₁⟩ := ih (sound_step encode h op) hrest hjob
    obtain ⟨job₀, hjob₀, hremains₀⟩ := remains_step h (hops op List.mem_cons_self) hjob₁
    exact ⟨job₀, hjob₀, hremains₀.trans hremains₁⟩

theorem job_of_poll {p : Progress β} (h : (f.poll id).2 = some p) : ∃ job, f.jobs.get? id = some job := by
  rcases hjob : f.jobs.get? id with _ | job
  · simp [poll, hjob] at h
  · exact ⟨job, rfl⟩

/-- **A reader that a poll has left pending is parked for as long as it is there.** -/
theorem waits_since_pending (h : f.Sound past) (hnew : f.jobs.get? id = some (.reader r))
    {pre post : List (Op ω β)} (hops : ∀ op ∈ pre ++ .poll id :: post, op.spares id = true)
    (hpending : ((f.run encode pre).1.poll id).2 = some .pending) {job : Job β}
    (hjob : (f.run encode (pre ++ .poll id :: post)).1.jobs.get? id = some job) : job.waits = true := by
  have hsound := sound_run encode h pre
  obtain ⟨job₁, hjob₁⟩ := job_of_poll hpending
  obtain ⟨job₀, hjob₀, hremains⟩ := remains_run h (fun op hop => hops op (List.mem_append_left _ hop)) hjob₁
  rw [hnew] at hjob₀
  cases hjob₀
  have hreads := hremains.reads rfl
  obtain ⟨r₁, rfl⟩ : ∃ r₁, job₁ = .reader r₁ := by
    rcases job₁ with r₁ | _
    · exact ⟨r₁, rfl⟩
    · cases hreads
  obtain ⟨r₂, watch₂, hp⟩ := parked_of_pending hsound.history.ringed hjob₁ hpending
  rw [← step_poll encode] at hp
  rw [run_append] at hjob
  have hpost : ∀ op ∈ post, op.spares id = true := fun op hop => hops op (by simp [hop])
  obtain ⟨job₂, hjob₂, hremains⟩ := remains_run (sound_step encode hsound (.poll id)) hpost hjob
  rw [hp.job] at hjob₂
  cases hjob₂
  exact hremains.waits (Job.waits_iff.2 ⟨r₂, watch₂, rfl, hp.parked⟩)

/-! ## The last park -/

/-- the poll of the feed `f` was the last that parked the reader, before the operations `post`: the reader was awake, and
looked at its journal; it stands just behind the tail that it saw, and is still as the poll left it -/
structure LastPark (encode : ω → Except WireError Data) (f : Feed β) (post : List (Op ω β)) (id : String) (r : Reader β)
    (watch : Watch) : Prop where
  /-- it had not been polled before, or was woken since -/
  awake : ∃ r₀, f.jobs.get? id = some (.reader r₀) ∧ ∀ watch₀, r₀.parked = some watch₀ → f.waits.ready watch₀ = true
  pending : (f.poll id).2 = some .pending
  behind : ∃ c, (f.poll id).1.store.live? r.key = some c ∧ r.position = c.tail + 1
  unchanged : ∀ mid, mid <+: post → ((f.poll id).1.run encode mid).1.Parked id r watch

theorem LastPark.snoc {post : List (Op ω β)} (h : LastPark encode f post id r watch)
    (hp : ((f.poll id).1.run encode (post ++ [op])).1.Parked id r watch) : LastPark encode f (post ++ [op]) id r watch := by
  refine ⟨h.awake, h.pending, h.behind, ?_⟩
  intro mid hmid
  rcases List.prefix_concat_iff.1 hmid with rfl | hmid
  · exact hp
  · exact h.unchanged mid hmid

theorem Enrolled.awake {f₀ : Feed β} {w : Waiter} (he : Enrolled f r f₀ w) :
    ∀ watch, r.parked = some watch → f.waits.ready watch = true := by
  intro watch hp
  cases he with
  | woken watch' hp' hready =>
    rw [hp] at hp'
    cases hp'
    exact hready
  | first hn =>
    rw [hp] at hn
    cases hn

/-- **A parked reader was parked by a poll of the run, and is what that poll left.** -/
theorem last_park (h : start.Sound past) (hnew : ∀ r watch, ¬ start.Parked id r watch) {ops : List (Op ω β)}
    (hp : (start.run encode ops).1.Parked id r watch) :
    ∃ pre post, ops = pre ++ .poll id :: post ∧ LastPark encode (start.run encode pre).1 post id r watch := by
  -- from the end: either the last operation is that poll, or it left the reader as it was
  induction ops using List.reverseRecOn generalizing r watch with
  | nil => exact absurd hp (hnew r watch)
  | append_singleton ops op ih =>
    have hsound := sound_run encode h ops
    have hkept : (start.run encode ops).1.Parked id r watch →
        ∃ pre post, ops ++ [op] = pre ++ .poll id :: post ∧ LastPark encode (start.run encode pre).1 post id r watch := by
      intro hbefore
      obtain ⟨pre, post, rfl, hlast⟩ := ih hbefore
      refine ⟨pre, post ++ [op], by simp, hlast.snoc ?_⟩
      have hall : pre ++ .poll id :: post ++ [op] = pre ++ .poll id :: (post ++ [op]) := by simp
      rw [hall, run_append] at hp
      simpa only [run, step_poll] using hp
    have hjob := hp.job
    rw [run_snoc] at hp hjob
    rcases step_stands encode hsound.keyed hsound.history.ringed hjob with ⟨_, hr⟩ | ⟨_, _, hr⟩ | _ | ⟨rfl, hr, he, ho, hf⟩
    · exact hkept ⟨hr, hp.parked⟩
    · exact hkept ⟨hr, hp.parked⟩
    · cases hp.parked
    · refine ⟨ops, [], rfl, ⟨_, hr, he.awake⟩, ?_, ?_, ?_⟩
      · rw [step_poll] at hjob
        exact pending_of_kept hsound.history.ringed hr hjob
      · obtain ⟨c, hparks⟩ := ho.parks
        have hfound := hparks.found
        rw [he.key hsound hr] at hfound
        obtain ⟨-, hlive, -⟩ := live_of_container? hfound
        rw [← step_poll encode, hf]
        exact ⟨c, hlive, hparks.position⟩
      · intro mid hmid
        rw [List.prefix_nil.1 hmid, ← step_poll encode]
        exact hp

/-! ## Room -/

theorem CaughtUp.room {c : Container EventRecord} {s : Int} {b b' : Batch EventRecord β} (h : CaughtUp c s b b')
    (hle : b.minSize ≤ b.maxSize) (hb : b'.satisfied = false) : b.full = false := by
  by_contra hfull
  have hfull : b.full = true := by simpa using hfull
  rcases h with _ | ⟨_, k, _, _, hr, hf⟩
  · rw [Batch.satisfied_of_full hle hfull] at hb
    cases hb
  · rw [Batch.full_readMany hfull hr] at hf
    cases hf

section Full

variable {b : Batch EventRecord β} {first : Int}

/-- a reader whose batch has no room stays as it was started, until it is done -/
theorem unparked_step (h : f.Sound past) (hle : b.minSize ≤ b.maxSize)
    (hfull : b.full = true) (hnew : ∀ r, f.jobs.get? id = some (.reader r) → r = ⟨key, first, b, none⟩)
    (hop : op.spares id = true) {r : Reader β} (hjob : (f.step encode op).1.jobs.get? id = some (.reader r)) :
    r = ⟨key, first, b, none⟩ := by
  rcases step_stands encode h.keyed h.history.ringed hjob with ⟨_, hr⟩ | ⟨_, _, hr⟩ | ⟨rfl⟩ | ⟨_, hr, _, ho, _⟩
  · exact hnew r hr
  · exact hnew r hr
  · simp [Op.spares] at hop
  · obtain ⟨c, hparks⟩ := ho.parks
    obtain rfl := hnew _ hr
    have hroom := hparks.caught.room hle hparks.wanting
    rw [hfull] at hroom
    cases hroom

theorem unparked_run (h : f.Sound past) (hle : b.minSize ≤ b.maxSize) (hfull : b.full = true)
    (hnew : ∀ r, f.jobs.get? id = some (.reader r) → r = ⟨key, first, b, none⟩) {ops : List (Op ω β)}
    (hops : ∀ op ∈ ops, op.spares id = true) {r : Reader β} (hjob : (f.run encode ops).1.jobs.get? id = some (.reader r)) :
    r = ⟨key, first, b, none⟩ := by
  induction ops generalizing f past with
  | nil => exact hnew r hjob
  | cons op ops ih =>
    have hop := hops op List.mem_cons_self
    apply ih (sound_step encode h op)
    · intro r' hr'
      exact unparked_step h hle hfull hnew hop hr'
    · intro op' hop'
      exact hops op' (List.mem_cons_of_mem op hop')
    · exact hjob

/-- **A reader parks only with room in its batch**, since a batch without room has all that it asks for. -/
theorem room_of_parked (h : f.Sound past) (hle : b.minSize ≤ b.maxSize)
    (hnew : f.jobs.get? id = some (.reader ⟨key, first, b, none⟩)) {ops : List (Op ω β)}
    (hops : ∀ op ∈ ops, op.spares id = true) (hp : (f.run encode ops).1.Parked id r watch) : b.full = false := by
  by_contra hfull
  have hnew : ∀ r, f.jobs.get? id = some (.reader r) → r = ⟨key, first, b, none⟩ := by
    intro r hr
    rw [hnew] at hr
    cases hr
    rfl
  obtain rfl := unparked_run h hle (by simpa using hfull) hnew hops hp.job
  cases hp.parked

end Full

end Feed

end Changefeed
