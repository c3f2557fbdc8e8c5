/-
Who holds a registration: the readers that are parked, and the named waiters. The registry only counts, so its counts
have to agree with the jobs and the waiters of the feed; then a channel lives as long as somebody waits on it, whoever
comes and goes in between, in whatever order.

Results:
- `step_reader_of_ne`, `step_waiter_of_ne`: a reader changes only through the operations that name its job, and a waiter only
  through those that name it;
- `accounts_step`: every operation keeps the registry's counts in agreement with the holders.
-/
import Changefeed.Proofs.Signals

namespace Changefeed

variable {ω β : Type}

/-- the job keeps a registration -/
def Job.holds (w : Waiter) : Job β → Bool
  | .reader r => r.parked.any fun watch => watch.waiter = w
  | .watch .. => false

theorem Job.holds_parked {r : Reader β} {watch : Watch} (hp : r.parked = some watch) (w : Waiter) :
    (Job.holds w (.reader r)).toNat = if w = watch.waiter then 1 else 0 := by
  by_cases hw : w = watch.waiter
  · simp [Job.holds, hp, hw]
  · simp [Job.holds, hp, hw, Ne.symm hw]

/-- the named waiter that an operation adds or ends -/
def Op.waiter? : Op ω β → Option String
  | .addWaiter name _ => some name
  | .dropWaiter name => some name
  | _ => none

namespace Feed

/-! ## Jobs of other names -/

theorem drop_jobs (f : Feed β) (id : String) : (f.drop id).1.jobs = f.jobs.erase id ∨
    f.jobs.get? id = none ∧ (f.drop id).1.jobs = f.jobs := by
  unfold drop
  split
  · next h => exact Or.inr ⟨h, rfl⟩
  · exact Or.inl rfl
  · exact Or.inl rfl

/-- the jobs that watch for a named waiter -/
def orphans (f : Feed β) (name : String) : List String :=
  f.jobs.entries.filterMap fun
    | (id, .watch owner _ _) => if owner = name then some id else none
    | (_, .reader _) => none

theorem mem_orphans {f : Feed β} {name id : String} :
    id ∈ f.orphans name ↔ ∃ watch polled, f.jobs.get? id = some (.watch name watch polled) := by
  constructor
  · intro hid
    obtain ⟨⟨id', job⟩, hmem, heq⟩ := List.mem_filterMap.1 hid
    cases job with
    | reader r => cases heq
    | watch owner watch polled =>
      simp only at heq
      split at heq
      · next howner =>
        cases heq
        exact ⟨watch, polled, howner ▸ (Table.mem_entries_iff _ _ _).1 hmem⟩
      · cases heq
  · rintro ⟨watch, polled, hjob⟩
    exact List.mem_filterMap.2 ⟨(id, .watch name watch polled), (Table.mem_entries_iff _ _ _).2 hjob, if_pos rfl⟩

/-- readers are no orphans -/
theorem not_reader_of_orphan {f : Feed β} {name id : String} (h : id ∈ f.orphans name) (r : Reader β) :
    f.jobs.get? id ≠ some (.reader r) := by
  obtain ⟨watch, polled, hjob⟩ := mem_orphans.1 h
  rw [hjob]
  intro heq
  cases heq

theorem dropWaiter_jobs (f : Feed β) (name : String) :
    (f.dropWaiter name).1.jobs = f.jobs ∨ (f.dropWaiter name).1.jobs = (f.orphans name).foldl Table.erase f.jobs := by
  unfold dropWaiter
  split
  · exact Or.inl rfl
  · exact Or.inr rfl

theorem reader_dropWaiter (f : Feed β) (name id : String) (r : Reader β) :
    (f.dropWaiter name).1.jobs.get? id = some (.reader r) ↔ f.jobs.get? id = some (.reader r) := by
  rcases dropWaiter_jobs f name with h | h
  · rw [h]
  · rw [h, Table.get?_foldl_erase]
    split
    · next hmem =>
      constructor
      · intro h
        cases h
      · intro h
        exact absurd h (not_reader_of_orphan hmem r)
    · rfl

/-- **A reader changes only through the operations that name its job.** -/
theorem step_reader_of_ne (encode : ω → Except WireError Data) {f : Feed β} (hkeyed : f.store.Keyed) {op : Op ω β}
    {id : String} (h : op.job? ≠ some id) (r : Reader β) :
    (f.step encode op).1.jobs.get? id = some (.reader r) ↔ f.jobs.get? id = some (.reader r) := by
  cases hop : op.enlists with
  | false => rw [(step_apart encode hkeyed hop).jobs]
  | true =>
    have hjob : ∀ id', op.job? = some id' → (f.step encode op).1.jobs.get? id = f.jobs.get? id := by
      intro id' hid
      exact (step_aside encode f hid).jobs id fun he => h (he ▸ hid)
    cases op with
    | startReader id' k s b => rw [hjob id' rfl]
    | poll id' => rw [hjob id' rfl]
    | drop id' => rw [hjob id' rfl]
    | startWatch id' name => rw [hjob id' rfl]
    | addWaiter name k => exact reader_dropWaiter f name id r
    | dropWaiter name => exact reader_dropWaiter f name id r
    | _ => cases hop

/-! ## Waiters of other names -/

/-- an outcome changes the store alone -/
theorem Outcome.frame {f f' : Feed β} {w : Waiter} {s : Int} {b : Batch EventRecord β} {t : Turn β}
    (h : Outcome f w s b (f', t)) : f' = { f with store := f'.store } := by
  cases h with
  | dismissed _ => rfl
  | denied _ _ _ => rfl
  | served _ c _ _ hl _ =>
    have hframe := container?_frame f w.key
    rw [hl] at hframe
    exact hframe

theorem waiters_poll {f : Feed β} (hring : f.Ringed) (id : String) : (f.poll id).1.waiters = f.waiters := by
  cases hjob : f.jobs.get? id with
  | none => simp only [poll, hjob]
  | some job =>
    cases job with
    | watch owner watch polled =>
      simp only [poll, hjob]
      split <;> rfl
    | reader r =>
      obtain ⟨f', p, heq, hpolled⟩ := poll_polled hring hjob
      have henrolled : ∀ {f₀ : Feed β} {w : Waiter}, Enrolled f r f₀ w → f₀.waiters = f.waiters := by
        intro f₀ w he
        cases he <;> rfl
      rw [heq]
      cases hpolled with
      | asleep => rfl
      | ended f₀ f₁ w result he ho =>
        have hwaiters : f₀.waiters = f.waiters := henrolled he
        rw [ho.frame]
        exact hwaiters
      | parked f₀ f₁ w watch position b he ho =>
        have hwaiters : f₀.waiters = f.waiters := henrolled he
        rw [ho.frame]
        exact hwaiters

theorem get?_waiters_dropWaiter (f : Feed β) (name : String) : (f.dropWaiter name).1.waiters.get? name = none := by
  cases hn : f.waiters.get? name with
  | none => simp only [dropWaiter, hn]
  | some waiter => simp only [dropWaiter, hn, Table.get?_erase_self]

theorem get?_waiters_dropWaiter_of_ne (f : Feed β) {name name' : String} (hne : name' ≠ name) :
    (f.dropWaiter name).1.waiters.get? name' = f.waiters.get? name' := by
  unfold dropWaiter
  split
  · rfl
  · exact Table.get?_erase_of_ne _ hne

/-- **A waiter changes only through the operations that name it.** -/
theorem step_waiter_of_ne (encode : ω → Except WireError Data) {f : Feed β} (hkeyed : f.store.Keyed) (hring : f.Ringed)
    {op : Op ω β} {name : String} (h : op.waiter? ≠ some name) :
    (f.step encode op).1.waiters.get? name = f.waiters.get? name := by
  cases hop : op.enlists with
  | false => rw [(step_apart encode hkeyed hop).waiters]
  | true =>
    cases op with
    | startReader id k s b => exact congrArg (fun f => f.waiters.get? name) (drop_frame f id)
    | poll id => rw [step_poll, waiters_poll hring]
    | drop id => exact congrArg (fun f => f.waiters.get? name) (drop_frame f id)
    | startWatch id name' =>
      rw [step_startWatch]
      exact congrArg (fun f => f.waiters.get? name) (startWatch_frame f id name')
    | addWaiter name' k =>
      have hne : name ≠ name' := fun heq => h (congrArg some heq.symm)
      exact (Table.get?_set_of_ne _ hne _).trans (get?_waiters_dropWaiter_of_ne f hne)
    | dropWaiter name' => exact get?_waiters_dropWaiter_of_ne f fun heq => h (congrArg some heq.symm)
    | _ => cases hop

/-! ## Counting the holders -/

/-- how many hold a registration: the parked readers and the named waiters of the feed -/
def holders (f : Feed β) (w : Waiter) : ℕ := f.jobs.count (Job.holds w) + f.waiters.count fun w' => w' = w

/-- the holders of a registration beside the job of this name -/
def holdersBeside (f : Feed β) (id : String) (w : Waiter) : ℕ :=
  (f.jobs.erase id).count (Job.holds w) + f.waiters.count fun w' => w' = w

/-- the registry counts the holders -/
def Enlisted (f : Feed β) : Prop := f.waits.Accounts f.holders

theorem enlisted_init (resolver : Resolver) (registered : Bool) : (init resolver registered : Feed β).Enlisted :=
  WaitRegistry.accounts_empty

theorem holders_eq (f : Feed β) (id : String) (w : Waiter) :
    f.holders w = f.holdersBeside id w + ((f.jobs.get? id).any (Job.holds w)).toNat := by
  have := Table.count_erase f.jobs id (Job.holds w)
  unfold holders holdersBeside
  omega

theorem holders_set (f : Feed β) (id : String) (job : Job β) (w : Waiter) :
    { f with jobs := f.jobs.set id job }.holders w = f.holdersBeside id w + (job.holds w).toNat := by
  have hset := Table.count_set f.jobs id job (Job.holds w)
  have herase := Table.count_erase f.jobs id (Job.holds w)
  unfold holders holdersBeside
  simp only
  omega

/-- a parked reader holds its registration, beside whoever else does -/
theorem holders_of_parked {f : Feed β} {id : String} {r : Reader β} {watch : Watch}
    (hjob : f.jobs.get? id = some (.reader r)) (hp : r.parked = some watch) (w : Waiter) :
    f.holders w = f.holdersBeside id w + if w = watch.waiter then 1 else 0 := by
  rw [holders_eq f id w, hjob, ← Job.holds_parked hp w]
  rfl

/-- a job that holds nothing takes no place -/
theorem enlisted_set {f : Feed β} (h : f.Enlisted) {id : String} (hold : ∀ w, (f.jobs.get? id).any (Job.holds w) = false)
    {job : Job β} (hjob : ∀ w, job.holds w = false) : { f with jobs := f.jobs.set id job }.Enlisted := by
  have hsame : { f with jobs := f.jobs.set id job }.holders = f.holders := by
    funext w
    rw [holders_set, holders_eq f id w, hold w, hjob w]
  rw [Enlisted, hsame]
  exact h

/-- a job that holds nothing leaves no place -/
theorem enlisted_erase {f : Feed β} (h : f.Enlisted) {id : String}
    (hold : ∀ w, (f.jobs.get? id).any (Job.holds w) = false) : { f with jobs := f.jobs.erase id }.Enlisted := by
  have hsame : { f with jobs := f.jobs.erase id }.holders = f.holders := by
    funext w
    rw [holders_eq f id w, hold w]
    rfl
  rw [Enlisted, hsame]
  exact h

theorem get?_drop_self (f : Feed β) (id : String) : (f.drop id).1.jobs.get? id = none := by
  rcases drop_jobs f id with h | ⟨hn, h⟩
  · rw [h, Table.get?_erase_self]
  · rw [h, hn]

/-- the registration of a parked reader is held -/
theorem holders_pos {f : Feed β} {id : String} {r : Reader β} {watch : Watch}
    (hjob : f.jobs.get? id = some (.reader r)) (hp : r.parked = some watch) : 0 < f.holders watch.waiter := by
  rw [holders_of_parked hjob hp, if_pos rfl]
  exact Nat.succ_pos _

theorem enlisted_drop {f : Feed β} (h : f.Enlisted) (id : String) : (f.drop id).1.Enlisted := by
  unfold drop
  split
  · exact h
  · next r hjob =>
    cases hp : r.parked with
    | none => exact enlisted_erase h fun w => by simp [hjob, Job.holds, hp]
    | some watch =>
      have hrelease := WaitRegistry.accounts_release h (holders_pos hjob hp)
      have hsame : ∀ w, (f.holders w - if w = watch.waiter then 1 else 0) = f.holdersBeside id w := by
        intro w
        rw [holders_of_parked hjob hp, Nat.add_sub_cancel]
      simp only [hsame] at hrelease
      exact hrelease
  · next hjob => exact enlisted_erase h fun w => by simp [hjob, Job.holds]

/-- a reader that makes its turns is registered: the others are counted, and it is -/
theorem Enrolled.accounts {f f₀ : Feed β} {id : String} {r : Reader β} {w : Waiter} (h : f.Enlisted)
    (hjob : f.jobs.get? id = some (.reader r)) (he : Enrolled f r f₀ w) :
    f₀.waits.Accounts (fun w' => f.holdersBeside id w' + if w' = w then 1 else 0) ∧ f₀.jobs = f.jobs ∧
      f₀.waiters = f.waiters := by
  cases he with
  | woken watch hp _ =>
    refine ⟨?_, rfl, rfl⟩
    simp only [← holders_of_parked hjob hp]
    exact h
  | first hp =>
    have hsame : ∀ w', f.holders w' = f.holdersBeside id w' := by
      intro w'
      rw [holders_eq f id w', hjob]
      simp [Job.holds, hp]
    have hregister := WaitRegistry.accounts_register h r.key
    simp only [hsame] at hregister
    exact ⟨hregister, rfl, rfl⟩

/-- a reader parks on its own registration -/
theorem Outcome.watch {f f' : Feed β} {w : Waiter} {s position : Int} {b b' : Batch EventRecord β} {watch : Watch}
    (h : Outcome f w s b (f', .parked watch position b')) : watch = f.waits.watch w := by
  cases h with
  | served _ _ _ _ _ hs =>
    cases hs
    rfl

theorem Polled.enlisted {f f' : Feed β} {id : String} {r : Reader β} {p : Progress β} (h : f.Enlisted)
    (hjob : f.jobs.get? id = some (.reader r)) (hpolled : Polled f id r (f', p)) : f'.Enlisted := by
  cases hpolled with
  | asleep => exact h
  | ended f₀ f₁ w result he ho =>
    obtain ⟨haccounts, hjobs, hwaiters⟩ := he.accounts h hjob
    have hrelease := WaitRegistry.accounts_release haccounts (w := w) (by simp)
    have hframe := ho.frame
    have hsame : ∀ w', (f.holdersBeside id w' + (if w' = w then 1 else 0) - if w' = w then 1 else 0) =
        f.holdersBeside id w' := fun w' => Nat.add_sub_cancel _ _
    simp only [hsame] at hrelease
    rw [hframe]
    unfold Enlisted holders
    simp only [hjobs, hwaiters]
    exact hrelease
  | parked f₀ f₁ w watch position b he ho =>
    obtain ⟨haccounts, hjobs, hwaiters⟩ := he.accounts h hjob
    have hframe := ho.frame
    have hsame : ∀ w', { f with jobs := f.jobs.set id (.reader ⟨r.key, position, b, some watch⟩) }.holders w' =
        f.holdersBeside id w' + if w' = w then 1 else 0 := by
      intro w'
      rw [holders_set, Job.holds_parked rfl, ho.watch]
      rfl
    simp only [← hsame] at haccounts
    rw [hframe]
    unfold Enlisted holders
    simp only [hjobs, hwaiters]
    exact haccounts

theorem enlisted_poll {f : Feed β} (hring : f.Ringed) (h : f.Enlisted) (id : String) : (f.poll id).1.Enlisted := by
  cases hjob : f.jobs.get? id with
  | none =>
    simp only [poll, hjob]
    exact h
  | some job =>
    cases job with
    | reader r =>
      obtain ⟨f', p, heq, hpolled⟩ := poll_polled hring hjob
      rw [heq]
      exact hpolled.enlisted h hjob
    | watch owner watch polled =>
      have hold : ∀ w, (f.jobs.get? id).any (Job.holds w) = false := fun w => by simp [hjob, Job.holds]
      simp only [poll, hjob]
      split
      · exact enlisted_erase h hold
      · exact enlisted_set h hold fun w => rfl

theorem enlisted_dropWaiter {f : Feed β} (h : f.Enlisted) (name : String) : (f.dropWaiter name).1.Enlisted := by
  cases hn : f.waiters.get? name with
  | none =>
    simp only [dropWaiter, hn]
    exact h
  | some waiter =>
    have hjobs : ∀ w, ((f.orphans name).foldl Table.erase f.jobs).count (Job.holds w) = f.jobs.count (Job.holds w) := by
      intro w
      refine Table.count_foldl_erase fun id hid => ?_
      cases hjob : f.jobs.get? id with
      | none => rfl
      | some job =>
        cases job with
        | reader r => exact absurd hjob (not_reader_of_orphan hid r)
        | watch owner watch polled => rfl
    have hwaiters : ∀ w, (f.waiters.erase name).count (fun w' => w' = w) + (if w = waiter then 1 else 0) =
        f.waiters.count fun w' => w' = w := by
      intro w
      rw [← Table.count_erase f.waiters name fun w' => decide (w' = w), hn]
      by_cases hw : w = waiter
      · simp [hw]
      · simp [hw, Ne.symm hw]
    have hpos : 0 < f.holders waiter := by
      have := hwaiters waiter
      unfold holders
      simp only [if_true] at this
      omega
    have hrelease := WaitRegistry.accounts_release h hpos
    have hsame : ∀ w, (f.holders w - if w = waiter then 1 else 0) = (f.dropWaiter name).1.holders w := by
      intro w
      have hdrop : (f.dropWaiter name).1.holders w =
          ((f.orphans name).foldl Table.erase f.jobs).count (Job.holds w) +
            (f.waiters.erase name).count fun w' => w' = w := by
        simp only [dropWaiter, hn]
        rfl
      rw [hdrop, hjobs w, holders, ← hwaiters w]
      omega
    have hwaits : (f.dropWaiter name).1.waits = f.waits.release waiter := by simp only [dropWaiter, hn]
    simp only [hsame] at hrelease
    rw [Enlisted, hwaits]
    exact hrelease

theorem enlisted_addWaiter {f : Feed β} (h : f.Enlisted) (name : String) (key : JournalKey) :
    (f.addWaiter name key).1.Enlisted := by
  have hregister := WaitRegistry.accounts_register (enlisted_dropWaiter h name) key
  have hnone := get?_waiters_dropWaiter f name
  simp only [addWaiter]
  generalize (f.dropWaiter name).1 = g at hregister hnone
  have hsame : ∀ w, (g.holders w + if w = (g.waits.register key).2 then 1 else 0) =
      { g with waits := (g.waits.register key).1,
               waiters := g.waiters.set name (g.waits.register key).2 }.holders w := by
    intro w
    have hset := Table.count_set g.waiters name (g.waits.register key).2 fun w' => decide (w' = w)
    rw [hnone] at hset
    simp only [holders]
    by_cases hw : w = (g.waits.register key).2
    · simp [hw] at hset ⊢
      omega
    · simp [hw, Ne.symm hw] at hset ⊢
      omega
  simp only [hsame] at hregister
  exact hregister

/-- **The registry counts the holders, whatever is done.** -/
theorem accounts_step (encode : ω → Except WireError Data) {f : Feed β} (hkeyed : f.store.Keyed) (hring : f.Ringed)
    (h : f.Enlisted) (op : Op ω β) : (f.step encode op).1.Enlisted := by
  cases hop : op.enlists with
  | false =>
    have hapart := step_apart encode hkeyed hop
    have hsame : (f.step encode op).1.holders = f.holders := by
      funext w
      simp only [holders, hapart.jobs, hapart.waiters]
    have hheard := hapart.heard
    rw [Enlisted, hsame]
    generalize (f.step encode op).1.waits = r at hheard
    cases hheard with
    | nothing => exact h
    | wake k => exact WaitRegistry.accounts_wake h k
    | cancel k => exact WaitRegistry.accounts_cancel h k
  | true =>
    cases op with
    | startReader id k s b =>
      refine enlisted_set (enlisted_drop h id) (fun w => ?_) fun w => rfl
      rw [get?_drop_self]
      rfl
    | poll id =>
      rw [step_poll]
      exact enlisted_poll hring h id
    | drop id => exact enlisted_drop h id
    | addWaiter name k => exact enlisted_addWaiter h name k
    | startWatch id name =>
      simp only [step, startWatch]
      cases f.waiters.get? name with
      | none => exact h
      | some w =>
        refine enlisted_set (enlisted_drop h id) (fun w => ?_) fun w => rfl
        rw [get?_drop_self]
        rfl
    | dropWaiter name => exact enlisted_dropWaiter h name
    | _ => cases hop

end Feed

end Changefeed
