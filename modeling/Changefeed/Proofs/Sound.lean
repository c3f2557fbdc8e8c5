/-
What holds of every feed that a run can reach: the containers bear their keys and hold their history, the registry
counts its holders, and a parked reader watches a channel of its own key, wants more than it has, and has been woken if
it was cancelled.

How a reader came to be what it is after an operation is one of four things (`Stands`): the operation did not name its
job, changed nothing, started it, or polled it and parked it.

Results:
- `step_stands`: the four cases;
- `sound_step`, `sound_run`: every operation keeps a feed sound, so every run does;
- `Sound.not_torn`, `Sound.stays`: under a reader that is not cancelled the journal stays, unless a container is
  discarded behind the feed's back (`Op.keepsJournals`).
-/
import Changefeed.Proofs.Holders

namespace Changefeed

variable {ω β : Type}

/-- the operation leaves no reader behind with a journal that is gone -/
def Op.keepsJournals : Op ω β → Bool
  | .discard _ => false
  | _ => true

theorem dismisses_of_tearsDown {f : Feed β} {key : JournalKey} {op : Op ω β} (hop : op.keepsJournals = true)
    (h : op.tearsDown f key = true) : op.dismisses f key = true := by
  cases op with
  | destroy k => exact h
  | discard k => cases hop
  | _ => cases h

namespace Feed

/-! ## How a reader came about -/

/-- how a reader came to be what it is after an operation -/
inductive Stands (encode : ω → Except WireError Data) (f : Feed β) (op : Op ω β) (id : String) : Reader β → Prop
  | other {r : Reader β} (hop : op.job? ≠ some id) (hr : f.jobs.get? id = some (.reader r)) : Stands encode f op id r
  | still {r : Reader β} (hop : op.enlists = true) (hf : (f.step encode op).1 = f)
      (hr : f.jobs.get? id = some (.reader r)) : Stands encode f op id r
  | started {key : JournalKey} {s : Int} {b : Batch EventRecord β} (hop : op = .startReader id key s b) :
      Stands encode f op id ⟨key, s, b, none⟩
  | parked {r : Reader β} {f₀ f₁ : Feed β} {w : Waiter} {watch : Watch} {position : Int} {b : Batch EventRecord β}
      (hop : op = .poll id) (hr : f.jobs.get? id = some (.reader r)) (he : Enrolled f r f₀ w)
      (ho : Outcome f₀ w r.position r.batch (f₁, .parked watch position b))
      (hf : (f.step encode op).1 = { f₁ with jobs := f₁.jobs.set id (.reader ⟨r.key, position, b, some watch⟩) }) :
      Stands encode f op id ⟨r.key, position, b, some watch⟩

theorem step_stands (encode : ω → Except WireError Data) {f : Feed β} (hkeyed : f.store.Keyed) (hring : f.Ringed)
    {op : Op ω β} {id : String} {r : Reader β} (h : (f.step encode op).1.jobs.get? id = some (.reader r)) :
    Stands encode f op id r := by
  by_cases hop : op.job? = some id
  · cases op with
    | startReader id' key s b =>
      obtain rfl : id' = id := Option.some.inj hop
      simp only [step, startReader, Table.get?_set_self] at h
      cases h
      exact .started rfl
    | poll id' =>
      obtain rfl : id' = id := Option.some.inj hop
      have hstep := step_poll encode f id'
      rw [hstep] at h
      cases hjob : f.jobs.get? id' with
      | none => simp [poll, hjob] at h
      | some job =>
        cases job with
        | watch owner watch polled =>
          simp only [poll, hjob] at h
          split at h
          · simp at h
          · simp at h
        | reader r₀ =>
          obtain ⟨f', p, heq, hpolled⟩ := poll_polled hring hjob
          rw [heq] at h hstep
          cases hpolled with
          | asleep watch hp hready => exact .still rfl hstep h
          | ended f₀ f₁ w result he ho =>
            simp at h
          | parked f₀ f₁ w watch position b he ho =>
            simp only [Table.get?_set_self] at h
            cases h
            exact .parked rfl hjob he ho hstep
    | drop id' =>
      obtain rfl : id' = id := Option.some.inj hop
      simp only [step, get?_drop_self] at h
      cases h
    | startWatch id' name =>
      obtain rfl : id' = id := Option.some.inj hop
      cases hn : f.waiters.get? name with
      | none =>
        have hf : (f.step encode (.startWatch id' name)).1 = f := by simp only [step, startWatch, hn]
        rw [hf] at h
        exact .still rfl hf h
      | some w => simp [step, startWatch, hn] at h
    | _ => cases hop
  · exact .other hop ((step_reader_of_ne encode hkeyed hop r).1 h)

/-- what is known of a turn that parks a reader -/
structure Parks (f₀ : Feed β) (w : Waiter) (s : Int) (b : Batch EventRecord β) (f₁ : Feed β) (watch : Watch)
    (position : Int) (b' : Batch EventRecord β) (c : Container EventRecord) : Prop where
  standing : f₀.waits.isCancelled w = false
  found : f₀.container? w.key = (f₁, .ok (some c))
  caught : CaughtUp c s b b'
  wanting : b'.satisfied = false
  watch : watch = f₀.waits.watch w
  position : position = c.tail + 1

theorem Outcome.parks {f₀ f₁ : Feed β} {w : Waiter} {s position : Int} {b b' : Batch EventRecord β} {watch : Watch}
    (h : Outcome f₀ w s b (f₁, .parked watch position b')) : ∃ c, Parks f₀ w s b f₁ watch position b' c := by
  cases h with
  | served _ c _ hc hl hs =>
    cases hs with
    | parks _ hcaught hb => exact ⟨c, hc, hl, hcaught, hb, rfl, rfl⟩

/-! ## Sound feeds -/

/-- what is known of a parked reader, woken or not -/
structure Watching (f : Feed β) (r : Reader β) (watch : Watch) : Prop where
  key : watch.waiter.key = r.key
  registered : f.registered = true
  seen : watch.seen ≤ f.waits.wakeups watch.waiter
  /-- cancelling is also waking -/
  cancelled : f.waits.isCancelled watch.waiter = true → f.waits.ready watch = true
  wanting : r.batch.satisfied = false

/-- what holds of every feed that a run can reach -/
structure Sound (f : Feed β) (past : JournalKey → List EventRecord) : Prop where
  keyed : f.store.Keyed
  history : f.History past
  enlisted : f.Enlisted
  watching : ∀ id r watch, f.jobs.get? id = some (.reader r) → r.parked = some watch → Watching f r watch

theorem History.ringed {f : Feed β} {past : JournalKey → List EventRecord} (h : f.History past) : f.Ringed :=
  fun _ _ hc => (h.live hc).head_le

theorem sound_init (resolver : Resolver) (registered : Bool) :
    (init resolver registered : Feed β).Sound fun _ => [] := by
  refine ⟨Store.keyed_empty, history_init resolver registered, enlisted_init resolver registered, ?_⟩
  intro id r watch hjob
  cases hjob

/-- the store service stays once it is there -/
theorem registered_step (encode : ω → Except WireError Data) {f : Feed β} (hkeyed : f.store.Keyed)
    (h : f.registered = true) (op : Op ω β) : (f.step encode op).1.registered = true := by
  cases hop : op.enlists with
  | false => exact (step_apart encode hkeyed hop).registered h
  | true =>
    cases op with
    | startReader id k s b => exact (step_aside encode f rfl).registered.trans h
    | poll id => exact (step_aside encode f rfl).registered.trans h
    | drop id => exact (step_aside encode f rfl).registered.trans h
    | startWatch id name => exact (step_aside encode f rfl).registered.trans h
    | addWaiter name k => exact (congrArg registered (dropWaiter_frame f name)).trans h
    | dropWaiter name => exact (congrArg registered (dropWaiter_frame f name)).trans h
    | _ => cases hop

/-- hearing more keeps what is known of a parked reader -/
theorem Watching.step (encode : ω → Except WireError Data) {f : Feed β} (hkeyed : f.store.Keyed) {r : Reader β}
    {watch : Watch} (h : Watching f r watch) (op : Op ω β) : Watching (f.step encode op).1 r watch := by
  have hsignals := step_signals encode hkeyed op watch.waiter
  refine ⟨h.key, registered_step encode hkeyed h.registered op, ?_, ?_, h.wanting⟩
  · rw [hsignals.wakeups]
    exact le_trans h.seen (Nat.le_add_right _ _)
  · intro hcancelled
    have hseen := h.seen
    rw [hsignals.cancelled, Bool.or_eq_true] at hcancelled
    simp only [WaitRegistry.ready, decide_eq_true_eq, hsignals.wakeups]
    rcases hcancelled with hold | hnew
    · have hready := h.cancelled hold
      simp only [WaitRegistry.ready, decide_eq_true_eq] at hready
      omega
    · obtain ⟨hdismissed, hcur⟩ := of_decide_eq_true hnew
      rw [if_pos ⟨rouses_of_dismisses hdismissed, hcur⟩]
      omega

/-- a reader that makes its turns is registered under its own key -/
theorem Enrolled.key {f f₀ : Feed β} {id : String} {r : Reader β} {w : Waiter} {past : JournalKey → List EventRecord}
    (h : f.Sound past) (hr : f.jobs.get? id = some (.reader r)) (he : Enrolled f r f₀ w) : w.key = r.key := by
  cases he with
  | woken watch hp _ => exact (h.watching id r watch hr hp).key
  | first _ => rfl

/-- what is known of a reader that was just parked -/
theorem Parks.watching {f₀ f₁ : Feed β} {w : Waiter} {s position : Int} {b b' : Batch EventRecord β} {watch : Watch}
    {c : Container EventRecord} (h : Parks f₀ w s b f₁ watch position b' c) {key : JournalKey} (hk : w.key = key)
    (jobs : Table String (Job β)) : Watching { f₁ with jobs } ⟨key, position, b', some watch⟩ watch := by
  obtain ⟨hreg, -, hwaits⟩ := live_of_container? h.found
  have hw : watch = f₀.waits.watch w := h.watch
  subst hw
  refine ⟨hk, hreg, ?_, ?_, h.wanting⟩
  · simp only [hwaits]
    exact le_rfl
  · intro hcancelled
    simp only [hwaits] at hcancelled
    exact absurd hcancelled (by rw [WaitRegistry.watch, h.standing]; exact Bool.false_ne_true)

/-- **Every operation keeps a feed sound.** -/
theorem sound_step (encode : ω → Except WireError Data) {f : Feed β} {past : JournalKey → List EventRecord}
    (h : f.Sound past) (op : Op ω β) :
    (f.step encode op).1.Sound fun key => op.record encode f key (past key) := by
  have hring := h.history.ringed
  refine ⟨keyed_step encode h.keyed op, history_step encode h.keyed h.history op,
    accounts_step encode h.keyed hring h.enlisted op, ?_⟩
  intro id r watch hjob hp
  cases step_stands encode h.keyed hring hjob with
  | other _ hr => exact (h.watching id r watch hr hp).step encode h.keyed op
  | still _ hf hr =>
    rw [hf]
    exact h.watching id r watch hr hp
  | started _ => cases hp
  | parked _ hr he ho hf =>
    cases hp
    obtain ⟨c, hparks⟩ := ho.parks
    rw [hf]
    exact hparks.watching (he.key h hr) _

/-- **Every run keeps a feed sound.** -/
theorem sound_run (encode : ω → Except WireError Data) {f : Feed β} {past : JournalKey → List EventRecord}
    (h : f.Sound past) (ops : List (Op ω β)) :
    (f.run encode ops).1.Sound fun key => recorded encode key f (past key) ops := by
  induction ops generalizing f past with
  | nil => exact h
  | cons op ops ih => exact ih (sound_step encode h op)

theorem registered_run (encode : ω → Except WireError Data) {f : Feed β} {past : JournalKey → List EventRecord}
    (h : f.Sound past) (hr : f.registered = true) (ops : List (Op ω β)) : (f.run encode ops).1.registered = true := by
  induction ops generalizing f past with
  | nil => exact hr
  | cons op ops ih => exact ih (sound_step encode h op) (registered_step encode h.keyed hr op)

theorem record_of_enlists {op : Op ω β} (hop : op.enlists = true) (encode : ω → Except WireError Data) (f : Feed β)
    (key : JournalKey) (past : List EventRecord) : op.record encode f key past = past := by
  cases op <;> first | exact List.append_nil past | cases hop

/-- a journal that is looked for with success holds its history -/
theorem History.found {f f' : Feed β} {past : JournalKey → List EventRecord} (h : f.History past) {key : JournalKey}
    {c : Container EventRecord} (hl : f.container? key = (f', .ok (some c))) : c.Records (past key) := by
  have hlook := container?_look f key
  rw [hl] at hlook
  cases hlook with
  | found _ _ hc => exact h.live hc
  | begun _ _ hn hc =>
    rw [(h key).absent hn]
    exact hc.records

/-! ## The journal under a parked reader -/

/-- the registration of a parked reader that was not cancelled is on the current channel of its key -/
theorem Sound.current {f : Feed β} {past : JournalKey → List EventRecord} (h : f.Sound past) {id : String}
    {r : Reader β} {watch : Watch} (hr : f.jobs.get? id = some (.reader r)) (hp : r.parked = some watch)
    (hstand : f.waits.isCancelled watch.waiter = false) : f.waits.Current watch.waiter :=
  h.enlisted.current_of_held (holders_pos hr hp) hstand

/-- cancelling is for good -/
theorem standing_of_step (encode : ω → Except WireError Data) {f : Feed β} (hkeyed : f.store.Keyed) {op : Op ω β}
    {w : Waiter} (h : (f.step encode op).1.waits.isCancelled w = false) : f.waits.isCancelled w = false := by
  rw [(step_signals encode hkeyed op w).cancelled, Bool.or_eq_false_iff] at h
  exact h.1

/-- **A journal is not torn down under a reader that stands.** Whatever tears it down cancels the reader. -/
theorem Sound.not_torn {encode : ω → Except WireError Data} {f : Feed β} {past : JournalKey → List EventRecord}
    (h : f.Sound past) {op : Op ω β} (hkeeps : op.keepsJournals = true) {id : String} {r : Reader β} {watch : Watch}
    (hr : f.jobs.get? id = some (.reader r)) (hp : r.parked = some watch)
    (hstand : (f.step encode op).1.waits.isCancelled watch.waiter = false) : op.tearsDown f r.key = false := by
  have hcur := h.current hr hp (standing_of_step encode h.keyed hstand)
  rw [(step_signals encode h.keyed op watch.waiter).cancelled, Bool.or_eq_false_iff, (h.watching id r watch hr hp).key]
    at hstand
  by_contra htorn
  have hdismissed := dismisses_of_tearsDown hkeeps (by simpa using htorn)
  exact absurd ⟨hdismissed, hcur⟩ (of_decide_eq_false hstand.2)

/-- the live container of a reader that stands is used, and nothing else -/
theorem Sound.stays {encode : ω → Except WireError Data} {f : Feed β} {past : JournalKey → List EventRecord}
    (h : f.Sound past) {op : Op ω β} {key : JournalKey} (htorn : op.tearsDown f key = false)
    {c : Container EventRecord} (hc : f.store.live? key = some c) :
    ∃ c', (f.step encode op).1.store.live? key = some c' ∧ Used c (op.appended? encode f key) c' ∧
      (f.step encode op).1.store.handle? key = f.store.handle? key := by
  have hfate := step_fate encode h.keyed op key
  rw [htorn] at hfate
  obtain ⟨c', hc', hused, hlength⟩ := hfate.live hc
  refine ⟨c', hc', hused, ?_⟩
  simp only [Store.live?] at hc
  simp only [Store.handle?, Generations.openId?, hc, hc', hlength, Option.map_some]

/-! ## A small feed -/

/-- every object has a journal with room for four records -/
def smallResolver : Resolver := ⟨fun _ => some (.ofCapacity 4), minJournalVersion, 1⟩

def ordersKey : JournalKey := ⟨.map "orders", 0⟩

def stocksKey : JournalKey := ⟨.map "stocks", 0⟩

/-- adds an entry to the orders -/
def addOrder (n : UInt8) : Op Data Data := .write ordersKey 0 (.added [n] [n])

end Feed

end Changefeed
