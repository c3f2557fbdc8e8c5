/-
What a poll of a reader does. `Served` lists what the turns of one poll come to at a live journal, `Outcome` what they
come to at all, and `Polled` what the poll leaves behind. The two turns of a poll always suffice: the first that reads
without filling the batch ends just behind the tail, and there the second finds nothing to read.

Results:
- `turns_served`: at a live journal a reader is refused its position, fills its batch, or catches up with the tail;
- `turns_outcome`: otherwise it was cancelled, or there is no journal;
- `poll_polled`: a poll either finds the reader asleep, or ends it, or parks it again;
- `turns_congr`: what the turns of a reader depend on;
- `step_frame`, `step_aside`: what operations leave alone.
-/
import Changefeed.Proofs.Channels
import Changefeed.Proofs.Journals
import Changefeed.Proofs.Scan

namespace Changefeed

variable {ω β : Type}

/-- the job that an operation starts, polls or ends -/
def Op.job? : Op ω β → Option String
  | .startReader id .. => some id
  | .poll id => some id
  | .drop id => some id
  | .startWatch id _ => some id
  | _ => none

/-- the operation changes neither what surrounds the journals nor how many writes were counted -/
def Op.inner : Op ω β → Bool
  | .write .. => false
  | .setRegistry _ => false
  | .setVersion _ => false
  | .setPartitions _ => false
  | .registerStore => false
  | _ => true

namespace Feed

/-! ## Turns -/

/-- the batch of a reader that has caught up with the tail, with the records it read on the way -/
inductive CaughtUp (c : Container EventRecord) (s : Int) (b : Batch EventRecord β) : Batch EventRecord β → Prop
  | still (hs : s = c.tail + 1) : CaughtUp c s b b
  | read (b' : Batch EventRecord β) (k : ℕ) (hh : c.head ≤ s) (ht : s ≤ c.tail) (hr : c.readMany s b = .ok (b', k))
      (hf : b'.full = false) : CaughtUp c s b b'

/-- what the turns of a poll come to at a live journal -/
inductive Served (c : Container EventRecord) (watch : Watch) (s : Int) (b : Batch EventRecord β) : Turn β → Prop
  | refused (e : JournalError) (he : c.checkPosition s = .error e) : Served c watch s b (.finished (.error e))
  | filled (b' : Batch EventRecord β) (k : ℕ) (hh : c.head ≤ s) (ht : s ≤ c.tail)
      (hr : c.readMany s b = .ok (b', k)) (hf : b'.full = true) : Served c watch s b (.finished (.ok b'))
  | enough (b' : Batch EventRecord β) (hc : CaughtUp c s b b') (hb : b'.satisfied = true) :
      Served c watch s b (.finished (.ok b'))
  | parks (b' : Batch EventRecord β) (hc : CaughtUp c s b b') (hb : b'.satisfied = false) :
      Served c watch s b (.parked watch (c.tail + 1) b')

theorem query_live {γ : Type} {f : Feed β} {key : JournalKey} {c : Container EventRecord} (hr : f.registered = true)
    (hc : f.store.live? key = some c) (ask : Container EventRecord → Except JournalError γ) :
    f.query key ask = (f, ask c) := by
  simp [query, container, container?_live hr hc]

/-- one look at a live journal -/
theorem turn_live {f : Feed β} {w : Waiter} {c : Container EventRecord} (hr : f.registered = true)
    (hl : f.store.live? w.key = some c) (hc : f.waits.isCancelled w = false) (s : Int) (b : Batch EventRecord β) :
    f.turn w s b = (f, match c.checkPosition s with
      | .error e => .finished (.error e)
      | .ok () =>
        if c.shouldWait s then if b.satisfied then .finished (.ok b) else .parked (f.waits.watch w) s b
        else match c.readMany s b with
          | .error e => .finished (.error e)
          | .ok (b', _) => if b'.full then .finished (.ok b') else .again b'.next b') := by
  unfold turn
  simp only [hc, checkPosition, query_live hr hl, Bool.false_eq_true, if_false]
  cases c.checkPosition s with
  | error e => rfl
  | ok _ =>
    simp only [shouldWait, query_live hr hl]
    cases c.shouldWait s with
    | true => cases b.satisfied <;> rfl
    | false =>
      simp only [readMany, query_live hr hl, Bool.false_eq_true, if_false]
      cases c.readMany s b with
      | error e => rfl
      | ok p => obtain ⟨b', k⟩ := p; cases hf : b'.full <;> simp [hf]

/-- at the position just behind the tail there is nothing to read -/
theorem turn_behind_tail {f : Feed β} {w : Waiter} {c : Container EventRecord} (hr : f.registered = true)
    (hl : f.store.live? w.key = some c) (hc : f.waits.isCancelled w = false) (hh : c.head ≤ c.tail + 1)
    (b : Batch EventRecord β) :
    f.turn w (c.tail + 1) b =
      (f, if b.satisfied then .finished (.ok b) else .parked (f.waits.watch w) (c.tail + 1) b) := by
  have hok : c.checkPosition (c.tail + 1) = .ok () := Container.checkPosition_ok_iff.2 ⟨hh, le_rfl⟩
  have hwait : c.shouldWait (c.tail + 1) = true := by simp [Container.shouldWait]
  rw [turn_live hr hl hc, hok, hwait]
  rfl

/-- **Two turns suffice at a live journal**, and none of them changes the feed. -/
theorem turns_served {f : Feed β} {w : Waiter} {c : Container EventRecord} (hr : f.registered = true)
    (hl : f.store.live? w.key = some c) (hc : f.waits.isCancelled w = false) (hh : c.head ≤ c.tail + 1) (s : Int)
    (b : Batch EventRecord β) :
    ∃ t, turns w 2 f s b = (f, t) ∧ Served c (f.waits.watch w) s b t := by
  have hturn := turn_live hr hl hc s b
  cases hpos : c.checkPosition s with
  | error e =>
    refine ⟨_, ?_, .refused e hpos⟩
    simp only [turns, hturn, hpos]
  | ok _ =>
    obtain ⟨hs1, hs2⟩ := Container.checkPosition_ok_iff.1 hpos
    cases hwait : c.shouldWait s with
    | true =>
      have hs : s = c.tail + 1 := by
        simp only [Container.shouldWait, decide_eq_true_eq] at hwait
        omega
      subst hs
      cases hb : b.satisfied with
      | true =>
        refine ⟨_, ?_, .enough b (.still rfl) hb⟩
        simp only [turns, hturn, hpos, hwait, hb, if_true]
      | false =>
        refine ⟨_, ?_, .parks b (.still rfl) hb⟩
        simp only [turns, hturn, hpos, hwait, hb, if_true, Bool.false_eq_true, if_false]
    | false =>
      have hs : s ≤ c.tail := by
        simp only [Container.shouldWait, decide_eq_false_iff_not] at hwait
        omega
      cases hread : c.readMany s b with
      | error e =>
        rw [Container.readMany_error_iff, hpos] at hread
        cases hread
      | ok p =>
        obtain ⟨b', k⟩ := p
        cases hf : b'.full with
        | true =>
          refine ⟨_, ?_, .filled b' k hs1 hs hread hf⟩
          simp only [turns, hturn, hpos, hwait, hread, hf, if_true, Bool.false_eq_true, if_false]
        | false =>
          -- the second turn starts just behind the tail
          have hnext : b'.next = c.tail + 1 := Container.readMany_next hread hf
          have hcaught : CaughtUp c s b b' := .read b' k hs1 hs hread hf
          cases hb : b'.satisfied with
          | true =>
            refine ⟨_, ?_, .enough b' hcaught hb⟩
            simp only [turns, hturn, hpos, hwait, hread, hf, hnext, turn_behind_tail hr hl hc hh, hb, if_true,
              Bool.false_eq_true, if_false]
          | false =>
            refine ⟨_, ?_, .parks b' hcaught hb⟩
            simp only [turns, hturn, hpos, hwait, hread, hf, hnext, turn_behind_tail hr hl hc hh, hb,
              Bool.false_eq_true, if_false]

/-- what the turns of a poll come to -/
inductive Outcome (f : Feed β) (w : Waiter) (s : Int) (b : Batch EventRecord β) : Feed β × Turn β → Prop
  | dismissed (hc : f.waits.isCancelled w = true) :
      Outcome f w s b (f, .finished (.error (.destroyed w.key.ns.object w.key.part)))
  | denied (e : JournalError) (hc : f.waits.isCancelled w = false)
      (he : f.container w.key = (f, .error e)) : Outcome f w s b (f, .finished (.error e))
  | served (f' : Feed β) (c : Container EventRecord) (t : Turn β) (hc : f.waits.isCancelled w = false)
      (hl : f.container? w.key = (f', .ok (some c))) (hs : Served c (f.waits.watch w) s b t) : Outcome f w s b (f', t)

theorem turn_cancelled {f : Feed β} {w : Waiter} (hc : f.waits.isCancelled w = true) (s : Int)
    (b : Batch EventRecord β) :
    f.turn w s b = (f, .finished (.error (.destroyed w.key.ns.object w.key.part))) := by
  simp [turn, hc]

theorem turn_denied {f : Feed β} {w : Waiter} {e : JournalError} (hc : f.waits.isCancelled w = false)
    (he : f.container w.key = (f, .error e)) (s : Int) (b : Batch EventRecord β) :
    f.turn w s b = (f, .finished (.error e)) := by
  simp [turn, hc, checkPosition, query, he]

/-- a reader that creates its journal goes on as if it had found it -/
theorem turn_found {f f' : Feed β} {w : Waiter} {c : Container EventRecord} (hc : f.waits.isCancelled w = false)
    (hl : f.container? w.key = (f', .ok (some c))) (s : Int) (b : Batch EventRecord β) :
    f.turn w s b = f'.turn w s b := by
  have hagain : f'.container? w.key = (f', .ok (some c)) := by
    have := container?_again f w.key
    rwa [hl] at this
  have hwaits : f'.waits = f.waits := by
    have := congrArg Feed.waits (container?_frame f w.key)
    rwa [hl] at this
  have hcheck : f.checkPosition w.key s = f'.checkPosition w.key s := by
    simp only [checkPosition, query, container, hl, hagain]
  simp only [turn, hwaits, hc, hcheck, Bool.false_eq_true, if_false]

/-- a journal that was looked for with success is live then -/
theorem live_of_container? {f f' : Feed β} {key : JournalKey} {c : Container EventRecord}
    (hl : f.container? key = (f', .ok (some c))) :
    f'.registered = true ∧ f'.store.live? key = some c ∧ f'.waits = f.waits := by
  have h := container?_look f key
  rw [hl] at h
  cases h with
  | found _ hr hc => exact ⟨hr, hc, rfl⟩
  | begun _ hr hn hc => exact ⟨hr, live?_beginWith f key c, rfl⟩

/-- what is asked of a journal is answered by the container that the look gives -/
theorem query_found {γ : Type} {f f' : Feed β} {key : JournalKey} {c : Container EventRecord}
    (h : f.container? key = (f', .ok (some c))) (ask : Container EventRecord → Except JournalError γ) :
    f.query key ask = (f', ask c) := by
  simp only [query, container, h]

theorem subscribe_found {f f' : Feed β} {key : JournalKey} {c : Container EventRecord}
    (h : f.container? key = (f', .ok (some c))) : f.subscribe key = (f', .ok (c.head, c.tail)) := by
  rw [subscribe_eq, query_found h]

/-- the rings of the live containers of a feed are in order -/
def Ringed (f : Feed β) : Prop := ∀ key c, f.store.live? key = some c → c.head ≤ c.tail + 1

theorem Ringed.found {f f' : Feed β} (h : f.Ringed) {key : JournalKey} {c : Container EventRecord}
    (hl : f.container? key = (f', .ok (some c))) : c.head ≤ c.tail + 1 := by
  have hlook := container?_look f key
  rw [hl] at hlook
  cases hlook with
  | found _ hr hc => exact h key c hc
  | begun _ hr hn hc => exact hc.records.head_le

theorem turns_outcome {f : Feed β} (h : f.Ringed) (w : Waiter) (s : Int) (b : Batch EventRecord β) :
    Outcome f w s b (turns w 2 f s b) := by
  cases hc : f.waits.isCancelled w with
  | true =>
    have hturns : turns w 2 f s b = (f, .finished (.error (.destroyed w.key.ns.object w.key.part))) := by
      simp only [turns, turn_cancelled hc]
    rw [hturns]
    exact .dismissed hc
  | false =>
    have hlook := container?_look f w.key
    generalize hp : f.container? w.key = p at hlook
    have hdenied : ∀ e, f.container w.key = (f, .error e) → Outcome f w s b (turns w 2 f s b) := by
      intro e he
      have hturns : turns w 2 f s b = (f, .finished (.error e)) := by simp only [turns, turn_denied hc he]
      rw [hturns]
      exact .denied e hc he
    have hserved : ∀ f' c, f.container? w.key = (f', .ok (some c)) → Outcome f w s b (turns w 2 f s b) := by
      intro f' c hl
      obtain ⟨hr, hlive, hwaits⟩ := live_of_container? hl
      have hsame : turns w 2 f s b = turns w 2 f' s b := by simp only [turns, turn_found hc hl]
      obtain ⟨t, ht, hs⟩ := turns_served hr hlive (hwaits ▸ hc) (h.found hl) s b
      rw [hsame, ht]
      exact .served f' c t hc hl (hwaits ▸ hs)
    cases hlook with
    | refused e => exact hdenied e (by simp [container, hp])
    | absent => exact hdenied _ (by simp [container, hp]; rfl)
    | found c hr hl => exact hserved f c hp
    | begun c hr hl hn => exact hserved _ c hp

/-! ## Polls -/

/-- the feed and the registration with which a reader makes its turns -/
inductive Enrolled (f : Feed β) (r : Reader β) : Feed β → Waiter → Prop
  | woken (watch : Watch) (hp : r.parked = some watch) (hr : f.waits.ready watch = true) :
      Enrolled f r f watch.waiter
  | first (hp : r.parked = none) :
      Enrolled f r { f with waits := (f.waits.register r.key).1 } (f.waits.register r.key).2

/-- what a poll of a reader leaves behind -/
inductive Polled (f : Feed β) (id : String) (r : Reader β) : Feed β × Progress β → Prop
  | asleep (watch : Watch) (hp : r.parked = some watch) (hr : f.waits.ready watch = false) :
      Polled f id r (f, .pending)
  | ended (f₀ f₁ : Feed β) (w : Waiter) (result : Except JournalError (Batch EventRecord β)) (he : Enrolled f r f₀ w)
      (ho : Outcome f₀ w r.position r.batch (f₁, .finished result)) :
      Polled f id r ({ f₁ with jobs := f₁.jobs.erase id, waits := f₁.waits.release w }, .finished result)
  | parked (f₀ f₁ : Feed β) (w : Waiter) (watch : Watch) (position : Int) (b : Batch EventRecord β)
      (he : Enrolled f r f₀ w) (ho : Outcome f₀ w r.position r.batch (f₁, .parked watch position b)) :
      Polled f id r ({ f₁ with jobs := f₁.jobs.set id (.reader { r with position, batch := b, parked := some watch }) },
        .pending)

theorem advance_polled {f f₀ : Feed β} {w : Waiter} {r : Reader β} (h : f₀.Ringed) (he : Enrolled f r f₀ w)
    (id : String) : Polled f id r (f₀.advance id w r) := by
  have ho := turns_outcome h w r.position r.batch
  unfold advance
  generalize turns w 2 f₀ r.position r.batch = p at ho
  obtain ⟨f₁, t⟩ := p
  cases t with
  | finished result => exact .ended f₀ f₁ w result he ho
  | parked watch position b => exact .parked f₀ f₁ w watch position b he ho
  | again position b =>
    -- no turn of a poll is left to be made
    cases ho with
    | served _ _ _ _ _ hs => cases hs

theorem poll_polled {f : Feed β} (h : f.Ringed) {id : String} {r : Reader β}
    (hjob : f.jobs.get? id = some (.reader r)) :
    ∃ f' p, f.poll id = (f', some p) ∧ Polled f id r (f', p) := by
  have hpolled : Polled f id r (f.pollReader id r) := by
    unfold pollReader
    cases hp : r.parked with
    | none =>
      have hring : { f with waits := (f.waits.register r.key).1 }.Ringed := h
      exact advance_polled hring (.first hp) id
    | some watch =>
      cases hr : f.waits.ready watch with
      | false =>
        simp only [hr, Bool.false_eq_true, if_false]
        exact .asleep watch hp hr
      | true =>
        simp only [hr, if_true]
        exact advance_polled h (.woken watch hp hr) id
  refine ⟨(f.pollReader id r).1, (f.pollReader id r).2, ?_, hpolled⟩
  simp [poll, hjob]

/-! ## What operations leave alone -/

/-- a turn looks for the journal, and changes nothing else -/
theorem turn_fst (f : Feed β) (w : Waiter) (s : Int) (b : Batch EventRecord β) :
    (f.turn w s b).1 = f ∨ (f.turn w s b).1 = (f.container? w.key).1 := by
  cases hc : f.waits.isCancelled w with
  | true => exact Or.inl (by rw [turn_cancelled hc])
  | false =>
    have hlook := container?_look f w.key
    generalize hp : f.container? w.key = p at hlook
    have hserved : ∀ f' c, f.container? w.key = (f', .ok (some c)) → (f.turn w s b).1 = f' := by
      intro f' c hl
      obtain ⟨hr, hlive, hwaits⟩ := live_of_container? hl
      rw [turn_found hc hl, turn_live hr hlive (hwaits ▸ hc)]
    cases hlook with
    | refused e => exact Or.inl (by rw [turn_denied (e := e) hc (by simp [container, hp])])
    | absent => exact Or.inl (by rw [turn_denied (e := .notConfigured w.key.ns.object) hc (by simp [container, hp])])
    | found c => exact Or.inr (hserved f c hp)
    | begun c => exact Or.inr (hserved _ c hp)

theorem turns_fst (w : Waiter) (n : ℕ) (f : Feed β) (s : Int) (b : Batch EventRecord β) :
    (turns w n f s b).1 = f ∨ (turns w n f s b).1 = (f.container? w.key).1 := by
  induction n generalizing f s b with
  | zero => exact Or.inl rfl
  | succ n ih =>
    have hturn := turn_fst f w s b
    simp only [turns]
    generalize f.turn w s b = p at hturn
    obtain ⟨f', t⟩ := p
    cases t with
    | finished result => exact hturn
    | parked watch position b' => exact hturn
    | again position b' =>
      rcases hturn with rfl | rfl
      · exact ih _ position b'
      · have hih := ih (f.container? w.key).1 position b'
        rw [container?_again] at hih
        exact Or.inr (hih.elim id id)

/-- **What the turns of a reader depend on.** If feeds that are related have the same to say of the reader's registration, and
answer every question to its journal alike, leaving feeds that are related, then they give the reader the same turns. -/
theorem turns_congr {R : Feed β → Feed β → Prop} {w : Waiter}
    (hwaits : ∀ {f g : Feed β}, R f g → g.waits.isCancelled w = f.waits.isCancelled w ∧ g.waits.watch w = f.waits.watch w)
    (hquery : ∀ {γ : Type} {f g : Feed β} (ask : Container EventRecord → Except JournalError γ), R f g →
      R (f.query w.key ask).1 (g.query w.key ask).1 ∧ (g.query w.key ask).2 = (f.query w.key ask).2)
    (n : ℕ) {f g : Feed β} (h : R f g) (s : Int) (b : Batch EventRecord β) :
    R (turns w n f s b).1 (turns w n g s b).1 ∧ (turns w n g s b).2 = (turns w n f s b).2 := by
  -- two answers to a question, taken apart
  have hasked : ∀ {γ : Type} {f g : Feed β} (ask : Container EventRecord → Except JournalError γ), R f g →
      ∃ f' g' a, f.query w.key ask = (f', a) ∧ g.query w.key ask = (g', a) ∧ R f' g' := fun ask h =>
    ⟨_, _, _, rfl, Prod.ext rfl (hquery ask h).2, (hquery ask h).1⟩
  have hturn : ∀ {f g : Feed β} (s : Int) (b : Batch EventRecord β), R f g →
      ∃ f' g' t, f.turn w s b = (f', t) ∧ g.turn w s b = (g', t) ∧ R f' g' := by
    intro f g s b h
    unfold turn
    rw [(hwaits h).1, (hwaits h).2]
    cases f.waits.isCancelled w with
    | true => exact ⟨f, g, _, rfl, rfl, h⟩
    | false =>
      obtain ⟨f₁, g₁, a, hp, hp', h₁⟩ := hasked (fun c => c.checkPosition s) h
      simp only [checkPosition, hp, hp', Bool.false_eq_true, if_false]
      rcases a with e | u
      · exact ⟨f₁, g₁, _, rfl, rfl, h₁⟩
      · obtain ⟨f₂, g₂, a, hp, hp', h₂⟩ := hasked (fun c => .ok (c.shouldWait s)) h₁
        simp only [shouldWait, hp, hp']
        rcases a with e | (_ | _)
        · exact ⟨f₂, g₂, _, rfl, rfl, h₂⟩
        · obtain ⟨f₃, g₃, a, hp, hp', h₃⟩ := hasked (fun c => c.readMany s b) h₂
          simp only [readMany, hp, hp']
          rcases a with e | ⟨b', k⟩
          · exact ⟨f₃, g₃, _, rfl, rfl, h₃⟩
          · simp only
            split <;> exact ⟨f₃, g₃, _, rfl, rfl, h₃⟩
        · simp only
          split <;> exact ⟨f₂, g₂, _, rfl, rfl, h₂⟩
  induction n generalizing f g s b with
  | zero => exact ⟨h, rfl⟩
  | succ n ih =>
    obtain ⟨f₁, g₁, t, hp, hp', h₁⟩ := hturn s b h
    simp only [turns, hp, hp']
    cases t with
    | finished result => exact ⟨h₁, rfl⟩
    | parked watch position b' => exact ⟨h₁, rfl⟩
    | again position b' => exact ih h₁ position b'

/-- nobody was woken or cancelled -/
structure Undisturbed (r r' : WaitRegistry) : Prop where
  wakeups : ∀ w, r'.wakeups w = r.wakeups w
  cancelled : ∀ w, r'.isCancelled w = r.isCancelled w

theorem Undisturbed.refl (r : WaitRegistry) : Undisturbed r r := ⟨fun _ => rfl, fun _ => rfl⟩

theorem Undisturbed.trans {r r' r'' : WaitRegistry} (h : Undisturbed r r') (h' : Undisturbed r' r'') :
    Undisturbed r r'' :=
  ⟨fun w => (h'.wakeups w).trans (h.wakeups w), fun w => (h'.cancelled w).trans (h.cancelled w)⟩

theorem undisturbed_register (r : WaitRegistry) (key : JournalKey) : Undisturbed r (r.register key).1 :=
  ⟨WaitRegistry.wakeups_register r key, WaitRegistry.isCancelled_register r key⟩

theorem undisturbed_release (r : WaitRegistry) (w : Waiter) : Undisturbed r (r.release w) :=
  ⟨WaitRegistry.wakeups_release r w, WaitRegistry.isCancelled_release r w⟩

/-- who waits does not matter to a look for a journal -/
theorem container?_waits (f : Feed β) (waits : WaitRegistry) (key : JournalKey) :
    { f with waits }.container? key = ({ (f.container? key).1 with waits }, (f.container? key).2) := by
  simp only [container?]
  repeat' split
  all_goals rfl

/-- an operation on one job leaves alone the other jobs, the channels, the store service, and all of the store but the
journal that the job needs -/
structure Aside (f : Feed β) (id : String) (f' : Feed β) : Prop where
  store : f'.store = f.store ∨ ∃ key, f'.store = (f.container? key).1.store
  waits : Undisturbed f.waits f'.waits
  jobs : ∀ id', id' ≠ id → f'.jobs.get? id' = f.jobs.get? id'
  registered : f'.registered = f.registered

theorem Aside.refl (f : Feed β) (id : String) : Aside f id f :=
  ⟨Or.inl rfl, .refl _, fun _ _ => rfl, rfl⟩

theorem Aside.set {f f' : Feed β} {id : String} (h : Aside f id f') (job : Job β) :
    Aside f id { f' with jobs := f'.jobs.set id job } := by
  refine ⟨h.store, h.waits, ?_, h.registered⟩
  intro id' hne
  exact (Table.get?_set_of_ne _ hne _).trans (h.jobs id' hne)

theorem Aside.erase {f f' : Feed β} {id : String} (h : Aside f id f') :
    Aside f id { f' with jobs := f'.jobs.erase id } := by
  refine ⟨h.store, h.waits, ?_, h.registered⟩
  intro id' hne
  exact (Table.get?_erase_of_ne _ hne).trans (h.jobs id' hne)

theorem Aside.release {f f' : Feed β} {id : String} (h : Aside f id f') (w : Waiter) :
    Aside f id { f' with waits := f'.waits.release w } :=
  ⟨h.store, h.waits.trans (undisturbed_release _ w), h.jobs, h.registered⟩

theorem aside_advance (f : Feed β) (id : String) (w : Waiter) (r : Reader β) :
    Aside f id (f.advance id w r).1 := by
  have hturns : Aside f id (turns w 2 f r.position r.batch).1 := by
    rcases turns_fst w 2 f r.position r.batch with h | h
    · rw [h]
      exact .refl f id
    · rw [h, container?_frame]
      exact ⟨Or.inr ⟨w.key, rfl⟩, .refl _, fun _ _ => rfl, rfl⟩
  unfold advance
  generalize turns w 2 f r.position r.batch = p at hturns
  obtain ⟨f', t⟩ := p
  cases t with
  | finished result => exact hturns.erase.release w
  | parked watch position b => exact hturns.set _
  | again position b => exact hturns.set _

theorem aside_poll (f : Feed β) (id : String) : Aside f id (f.poll id).1 := by
  unfold poll
  split
  · exact .refl f id
  · next r _ =>
    show Aside f id (f.pollReader id r).1
    unfold pollReader
    split
    · split
      · exact aside_advance f id _ r
      · exact .refl f id
    · have h := aside_advance { f with waits := (f.waits.register r.key).1 } id (f.waits.register r.key).2 r
      refine ⟨h.store.imp_right ?_, (undisturbed_register f.waits r.key).trans h.waits, h.jobs, h.registered⟩
      rintro ⟨key, hstore⟩
      refine ⟨key, ?_⟩
      rw [hstore, container?_waits]
  · split
    · exact (Aside.refl f id).erase
    · exact (Aside.refl f id).set _

theorem aside_drop (f : Feed β) (id : String) : Aside f id (f.drop id).1 := by
  unfold drop
  split
  · exact .refl f id
  · next r _ =>
    cases r.parked with
    | none => exact (Aside.refl f id).erase
    | some watch => exact (Aside.refl f id).erase.release watch.waiter
  · exact (Aside.refl f id).erase

/-- ending a job changes jobs and registrations alone -/
theorem drop_frame (f : Feed β) (id : String) :
    (f.drop id).1 = { f with jobs := (f.drop id).1.jobs, waits := (f.drop id).1.waits } := by
  unfold drop
  split <;> rfl

theorem startWatch_frame (f : Feed β) (id name : String) :
    (f.startWatch id name).1 =
      { f with jobs := (f.startWatch id name).1.jobs, waits := (f.startWatch id name).1.waits } := by
  unfold startWatch
  split
  · rfl
  · rw [drop_frame]

theorem dropWaiter_frame (f : Feed β) (name : String) :
    (f.dropWaiter name).1 = { f with jobs := (f.dropWaiter name).1.jobs, waiters := (f.dropWaiter name).1.waiters,
                                     waits := (f.dropWaiter name).1.waits } := by
  unfold dropWaiter
  split <;> rfl

/-- polling a job changes the store, the jobs and the registrations alone -/
theorem poll_frame (f : Feed β) (id : String) :
    (f.poll id).1 =
      { f with store := (f.poll id).1.store, waits := (f.poll id).1.waits, jobs := (f.poll id).1.jobs } := by
  have hadvance : ∀ (f : Feed β) w r, (f.advance id w r).1 =
      { f with store := (f.advance id w r).1.store, waits := (f.advance id w r).1.waits,
               jobs := (f.advance id w r).1.jobs } := by
    intro f w r
    have hturns : (turns w 2 f r.position r.batch).1 = { f with store := (turns w 2 f r.position r.batch).1.store } := by
      rcases turns_fst w 2 f r.position r.batch with h | h
      · rw [h]
      · rw [h, container?_frame]
    unfold advance
    generalize turns w 2 f r.position r.batch = p at hturns
    obtain ⟨f', t⟩ := p
    obtain ⟨store, rfl⟩ : ∃ store, f' = { f with store } := ⟨_, hturns⟩
    cases t <;> rfl
  unfold poll
  split
  · rfl
  · next r _ =>
    show (f.pollReader id r).1 = _
    unfold pollReader
    split
    · split
      · exact hadvance f _ r
      · rfl
    · simp only
      rw [hadvance]
  · split <;> rfl

/-- **An operation that is neither a write nor about the surroundings** changes the store and those who wait, and nothing
else. -/
theorem step_frame (encode : ω → Except WireError Data) (f : Feed β) {op : Op ω β} (hop : op.inner = true) :
    (f.step encode op).1 =
      { f with store := (f.step encode op).1.store, waits := (f.step encode op).1.waits,
               waiters := (f.step encode op).1.waiters, jobs := (f.step encode op).1.jobs } := by
  cases op with
  | newest k => simp only [step, answer_fst]; rw [newest, query_frame]
  | oldest k => simp only [step, answer_fst]; rw [oldest, query_frame]
  | subscribe k => simp only [step, answer_fst]; rw [subscribe_eq, query_frame]
  | checkPosition k s => simp only [step, answer_fst]; rw [checkPosition, query_frame]
  | shouldWait k s => simp only [step, answer_fst]; rw [shouldWait, query_frame]
  | readMany k s b => simp only [step, answer_fst]; rw [readMany, query_frame]
  | cleanup k now => simp only [step, answer_fst]; rw [cleanup_frame]
  | destroy k =>
    simp only [step, destroy]
    split <;> rfl
  | storageConfig config => rw [step, answer_fst]
  | startReader id k s b => simp only [step, startReader]; rw [drop_frame]
  | poll id => rw [step_poll, poll_frame]
  | drop id => simp only [step]; rw [drop_frame]
  | addWaiter name k => simp only [step, addWaiter]; rw [dropWaiter_frame]
  | startWatch id name => rw [step_startWatch, startWatch_frame]
  | waiterCancelled name =>
    simp only [step]
    split <;> rfl
  | dropWaiter name => simp only [step]; rw [dropWaiter_frame]
  | wakeContainer h =>
    simp only [step]
    split <;> rfl
  | provide k config =>
    simp only [step]
    split <;> rfl
  | inspect h => rw [step, onHandle_frame]
  | append h record now => rw [step, onHandle_frame]
  | readOne h s => rw [step, onHandle_frame]
  | checkIn h s => rw [step, onHandle_frame]
  | shouldWaitIn h s => rw [step, onHandle_frame]
  | cleanupIn h now => rw [step, onHandle_frame]
  | write k now change => cases hop
  | setRegistry registry => cases hop
  | setVersion version => cases hop
  | setPartitions partitions => cases hop
  | registerStore => cases hop
  | _ => rfl

/-- **An operation on a job leaves the rest of the feed alone.** -/
theorem step_aside (encode : ω → Except WireError Data) (f : Feed β) {op : Op ω β} {id : String}
    (h : op.job? = some id) : Aside f id (f.step encode op).1 := by
  cases op with
  | startReader id' k s b =>
    obtain rfl : id' = id := Option.some.inj h
    exact (aside_drop f id').set _
  | poll id' =>
    obtain rfl : id' = id := Option.some.inj h
    rw [step_poll]
    exact aside_poll f id'
  | drop id' =>
    obtain rfl : id' = id := Option.some.inj h
    exact aside_drop f id'
  | startWatch id' name =>
    obtain rfl : id' = id := Option.some.inj h
    rw [step_startWatch]
    unfold startWatch
    split
    · exact .refl f id'
    · exact (aside_drop f id').set _
  | _ => cases h

end Feed

end Changefeed
