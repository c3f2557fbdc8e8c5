/-
What those who wait hear of an operation. Most operations leave the registry alone; some wake a key, some cancel one,
and six handle jobs and registrations. Which keys an operation wakes or cancels is read off the operation and the feed
before it (`Op.rouses`, `Op.dismisses`).

Results:
- `step_apart`: what an operation that handles no jobs leaves alone;
- `undisturbed_step`: the operations that handle jobs wake and cancel nobody;
- `step_signals`: an operation wakes the current channels of the keys it rouses, cancels those of the keys it
  dismisses, and does nothing to any other channel.
-/
import Changefeed.Proofs.Channels
import Changefeed.Proofs.History

namespace Changefeed

variable {ω β : Type}

/-- the operation wakes those who wait under a key -/
def Op.rouses (encode : ω → Except WireError Data) (f : Feed β) (key : JournalKey) : Op ω β → Bool
  | .write k now change => ((Op.write (β := β) k now change).appended? encode f key).isSome
  | .destroy k => k = key ∧ f.registered = true
  | .wake k => k = key
  | .wakeContainer h => (f.store.get? h).any fun c => c.key = key
  | .cancel k => k = key
  | _ => false

/-- the operation cancels those who wait under a key -/
def Op.dismisses (f : Feed β) (key : JournalKey) : Op ω β → Bool
  | .destroy k => k = key ∧ f.registered = true
  | .cancel k => k = key
  | _ => false

/-- cancelling is also waking -/
theorem rouses_of_dismisses {encode : ω → Except WireError Data} {f : Feed β} {key : JournalKey} {op : Op ω β}
    (h : op.dismisses f key = true) : op.rouses encode f key = true := by
  cases op with
  | destroy k => exact h
  | cancel k => exact h
  | _ => cases h

/-- the operation handles jobs or registrations -/
def Op.enlists : Op ω β → Bool
  | .startReader .. => true
  | .poll _ => true
  | .drop _ => true
  | .addWaiter .. => true
  | .startWatch .. => true
  | .dropWaiter _ => true
  | _ => false

namespace Feed

/-! ## Operations that handle no jobs -/

/-- the registry after an operation that handles no jobs -/
inductive Heard (encode : ω → Except WireError Data) (f : Feed β) (op : Op ω β) : WaitRegistry → Prop
  | nothing (hr : ∀ key, op.rouses encode f key = false) (hd : ∀ key, op.dismisses f key = false) :
      Heard encode f op f.waits
  | wake (k : JournalKey) (hr : ∀ key, op.rouses encode f key = decide (k = key))
      (hd : ∀ key, op.dismisses f key = false) : Heard encode f op (f.waits.wake k)
  | cancel (k : JournalKey) (hr : ∀ key, op.rouses encode f key = decide (k = key))
      (hd : ∀ key, op.dismisses f key = decide (k = key)) : Heard encode f op (f.waits.cancel k)

/-- an operation that handles no jobs leaves the jobs and the named waiters as they are -/
structure Apart (encode : ω → Except WireError Data) (f : Feed β) (op : Op ω β) (f' : Feed β) : Prop where
  heard : Heard encode f op f'.waits
  jobs : f'.jobs = f.jobs
  waiters : f'.waiters = f.waiters
  /-- the store service stays once it is there -/
  registered : f.registered = true → f'.registered = true

theorem apart_container? (encode : ω → Except WireError Data) (f : Feed β) (k : JournalKey) (op : Op ω β)
    (hr : ∀ key, op.rouses encode f key = false) (hd : ∀ key, op.dismisses f key = false) :
    Apart encode f op (f.container? k).1 := by
  rw [container?_frame]
  exact ⟨.nothing hr hd, rfl, rfl, id⟩

theorem apart_onHandle (encode : ω → Except WireError Data) (f : Feed β) (h : Handle)
    (act : Container EventRecord → Container EventRecord × Except JournalError (Answer β)) (op : Op ω β)
    (hr : ∀ key, op.rouses encode f key = false) (hd : ∀ key, op.dismisses f key = false) :
    Apart encode f op (f.onHandle h act).1 := by
  unfold onHandle
  split
  · exact ⟨.nothing hr hd, rfl, rfl, id⟩
  · exact ⟨.nothing hr hd, rfl, rfl, id⟩

theorem apart_write (encode : ω → Except WireError Data) {f : Feed β} (hkeyed : f.store.Keyed) (k : JournalKey)
    (now : ℕ) (change : Change ω ω) : Apart encode f (.write k now change) (f.write encode k now change).1 := by
  have hwritten := write_written encode f k now change
  generalize (f.write encode k now change).1 = f' at hwritten
  cases hwritten with
  | nothing hno => exact apart_container? encode f k _ (fun key => by simp [Op.rouses, hno]) fun _ => rfl
  | @record f' c a hp ha =>
    have hk : c.key = k := key_of_container? hkeyed hp
    have hframe : f' = { f with store := f'.store } := by
      have := container?_frame f k
      rwa [hp] at this
    have hr : ∀ key, (Op.write (β := β) k now change).rouses encode f key = decide (k = key) := by
      intro key
      rw [Op.rouses, ha]
      by_cases h : k = key
      · rw [if_pos h, decide_eq_true h]
        rfl
      · rw [if_neg h, decide_eq_false h]
        rfl
    rw [hk, hframe]
    exact ⟨.wake k hr fun _ => rfl, rfl, rfl, id⟩

/-- the registry, the jobs and the named waiters after an operation that handles no jobs -/
theorem step_apart (encode : ω → Except WireError Data) {f : Feed β} (hkeyed : f.store.Keyed) {op : Op ω β}
    (hop : op.enlists = false) : Apart encode f op (f.step encode op).1 := by
  have hquery : ∀ {γ : Type} (k : JournalKey) (ask : Container EventRecord → Except JournalError γ)
      (give : γ → Answer β) (op : Op ω β), (∀ key, op.rouses encode f key = false) →
      (∀ key, op.dismisses f key = false) → Apart encode f op (answer give (f.query k ask)).1 := by
    intro γ k ask give op hr hd
    rw [answer_fst, query_fst]
    exact apart_container? encode f k op hr hd
  cases op with
  | write k now change =>
    simp only [step, answer_fst]
    exact apart_write encode hkeyed k now change
  | newest k => exact hquery k _ _ _ (fun _ => rfl) fun _ => rfl
  | oldest k => exact hquery k _ _ _ (fun _ => rfl) fun _ => rfl
  | subscribe k =>
    simp only [step, answer_fst, subscribe_fst]
    exact apart_container? encode f k _ (fun _ => rfl) fun _ => rfl
  | checkPosition k s => exact hquery k _ _ _ (fun _ => rfl) fun _ => rfl
  | shouldWait k s => exact hquery k _ _ _ (fun _ => rfl) fun _ => rfl
  | readMany k s b => exact hquery k _ _ _ (fun _ => rfl) fun _ => rfl
  | cleanup k now =>
    have hlook := apart_container? encode f k (.cleanup k now) (fun _ => rfl) fun _ => rfl
    simp only [step, answer_fst]
    rcases cleanup_cases f k now with h | ⟨f', c, hp, h⟩
    · rw [h]
      exact hlook
    · rw [h]
      rw [hp] at hlook
      exact ⟨hlook.heard, hlook.jobs, hlook.waiters, hlook.registered⟩
  | destroy k =>
    simp only [step, destroy]
    cases hr : f.registered with
    | false =>
      simp only [if_true]
      exact ⟨.nothing (fun key => by simp [Op.rouses, hr]) fun key => by simp [Op.dismisses, hr], rfl, rfl, id⟩
    | true =>
      simp only [Bool.true_eq_false, if_false]
      exact ⟨.cancel k (fun key => by simp [Op.rouses, hr]) fun key => by simp [Op.dismisses, hr], rfl, rfl,
        fun _ => rfl⟩
  | wake k => exact ⟨.wake k (fun _ => rfl) fun _ => rfl, rfl, rfl, id⟩
  | wakeContainer h =>
    simp only [step]
    split
    · next hn => exact ⟨.nothing (fun _ => by simp [Op.rouses, hn]) fun _ => rfl, rfl, rfl, id⟩
    · next c hc => exact ⟨.wake c.key (fun _ => by simp [Op.rouses, hc]) fun _ => rfl, rfl, rfl, id⟩
  | registerStore => exact ⟨.nothing (fun _ => rfl) fun _ => rfl, rfl, rfl, fun _ => rfl⟩
  | cancel k => exact ⟨.cancel k (fun _ => rfl) fun _ => rfl, rfl, rfl, id⟩
  | storageConfig config =>
    simp only [step, answer_fst]
    exact ⟨.nothing (fun _ => rfl) fun _ => rfl, rfl, rfl, id⟩
  | waiterCancelled name =>
    simp only [step]
    split <;> exact ⟨.nothing (fun _ => rfl) fun _ => rfl, rfl, rfl, id⟩
  | provide k config =>
    simp only [step]
    split <;> exact ⟨.nothing (fun _ => rfl) fun _ => rfl, rfl, rfl, id⟩
  | inspect h => exact apart_onHandle encode f h _ _ (fun _ => rfl) fun _ => rfl
  | append h record now => exact apart_onHandle encode f h _ _ (fun _ => rfl) fun _ => rfl
  | readOne h s => exact apart_onHandle encode f h _ _ (fun _ => rfl) fun _ => rfl
  | checkIn h s => exact apart_onHandle encode f h _ _ (fun _ => rfl) fun _ => rfl
  | shouldWaitIn h s => exact apart_onHandle encode f h _ _ (fun _ => rfl) fun _ => rfl
  | cleanupIn h now => exact apart_onHandle encode f h _ _ (fun _ => rfl) fun _ => rfl
  | startReader id k s b => cases hop
  | poll id => cases hop
  | drop id => cases hop
  | addWaiter name k => cases hop
  | startWatch id name => cases hop
  | dropWaiter name => cases hop
  | _ => exact ⟨.nothing (fun _ => rfl) fun _ => rfl, rfl, rfl, id⟩

/-! ## Operations that handle jobs -/

theorem undisturbed_dropWaiter (f : Feed β) (name : String) : Undisturbed f.waits (f.dropWaiter name).1.waits := by
  unfold dropWaiter
  split
  · exact .refl _
  · exact undisturbed_release f.waits _

/-- jobs and registrations come and go without waking or cancelling anybody -/
theorem undisturbed_step (encode : ω → Except WireError Data) (f : Feed β) {op : Op ω β} (hop : op.enlists = true) :
    Undisturbed f.waits (f.step encode op).1.waits := by
  cases op with
  | startReader id k s b => exact (step_aside encode f rfl).waits
  | poll id => exact (step_aside encode f rfl).waits
  | drop id => exact (step_aside encode f rfl).waits
  | startWatch id name => exact (step_aside encode f rfl).waits
  | addWaiter name k => exact (undisturbed_dropWaiter f name).trans (undisturbed_register _ k)
  | dropWaiter name => exact undisturbed_dropWaiter f name
  | _ => cases hop

theorem quiet_of_enlists {op : Op ω β} (hop : op.enlists = true) (encode : ω → Except WireError Data) (f : Feed β)
    (key : JournalKey) : op.rouses encode f key = false ∧ op.dismisses f key = false := by
  cases op <;> first | exact ⟨rfl, rfl⟩ | cases hop

/-! ## Wake-ups -/

/-- what a waiter hears of an operation -/
structure Signals (encode : ω → Except WireError Data) (f : Feed β) (op : Op ω β) (r : WaitRegistry) (w : Waiter) :
    Prop where
  wakeups : r.wakeups w =
    f.waits.wakeups w + if op.rouses encode f w.key = true ∧ f.waits.Current w then 1 else 0
  cancelled : r.isCancelled w =
    (f.waits.isCancelled w || decide (op.dismisses f w.key = true ∧ f.waits.Current w))

/-- **Waking is exact.** An operation wakes the current channels of the keys that it rouses, cancels those of the keys
that it dismisses, and no others. -/
theorem step_signals (encode : ω → Except WireError Data) {f : Feed β} (hkeyed : f.store.Keyed) (op : Op ω β)
    (w : Waiter) : Signals encode f op (f.step encode op).1.waits w := by
  cases hop : op.enlists with
  | true =>
    have hstep := undisturbed_step encode f hop
    obtain ⟨hr, hd⟩ := quiet_of_enlists hop encode f w.key
    exact ⟨by simp [hstep.wakeups w, hr], by simp [hstep.cancelled w, hd]⟩
  | false =>
    have hheard := (step_apart encode hkeyed hop).heard
    generalize (f.step encode op).1.waits = r at hheard
    cases hheard with
    | nothing hr hd => exact ⟨by simp [hr], by simp [hd]⟩
    | wake k hr hd =>
      have hkey : op.rouses encode f w.key = true ↔ w.key = k := by rw [hr, decide_eq_true_eq, eq_comm]
      refine ⟨?_, by simp [WaitRegistry.isCancelled_wake, hd]⟩
      simp only [WaitRegistry.wakeups_wake, hkey]
    | cancel k hr hd =>
      have hkey : op.rouses encode f w.key = true ↔ w.key = k := by rw [hr, decide_eq_true_eq, eq_comm]
      have hkey' : op.dismisses f w.key = true ↔ w.key = k := by rw [hd, decide_eq_true_eq, eq_comm]
      refine ⟨?_, ?_⟩
      · simp only [WaitRegistry.wakeups_cancel, hkey]
      · simp only [WaitRegistry.isCancelled_cancel, hkey']

end Feed

end Changefeed
