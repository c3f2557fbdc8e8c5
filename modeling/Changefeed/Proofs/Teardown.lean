/-
What tearing a journal down separates. The container and the channel of the key are closed, and whatever comes under the key
later is new: a container that starts at zero with the settings of its own time, and a channel that nobody who waited before
is on. Those who waited before are woken and told at their next poll that the journal is gone, whatever has come in its place
by then; and when they go, the ones who came later do not notice.

Results:
- `dismissed_run`: who waited on a journal that was torn down, at any moment after;
- `unmoved_release`: a cancelled reader that goes leaves all other registrations as they are;
- `live_of_needs`, `renewed_of_new`: the next container of a journal without one, and how it begins;
- `destroy_separates`: all of it, for every run before and after.
-/
import Changefeed.Proofs.Closed
import Changefeed.Proofs.Absence

namespace Changefeed

variable {ω β : Type}

/-- a reader of a key that was not polled yet -/
def Job.unborn (key : JournalKey) : Job β → Bool
  | .reader r => r.key = key ∧ r.parked.isNone = true
  | .watch .. => false

/-- the operation cannot do without the journal of a key -/
def Op.needs (f : Feed β) (key : JournalKey) : Op ω β → Bool
  | .poll id => (f.jobs.get? id).any (Job.unborn key)
  | op => op.uses key

namespace WaitRegistry

variable {r r' : WaitRegistry} {w : Waiter}

/-- every registration but one is on the channel that it was on, current or not, cancelled or not -/
structure Unmoved (r r' : WaitRegistry) (w : Waiter) : Prop where
  current : ∀ w', r'.Current w' ↔ r.Current w'
  channel : ∀ w', w' ≠ w → r'.channel? w' = r.channel? w'
  cancelled : ∀ w', r'.isCancelled w' = r.isCancelled w'

theorem Unmoved.refl (r : WaitRegistry) (w : Waiter) : Unmoved r r w := ⟨fun _ => Iff.rfl, fun _ _ => rfl, fun _ => rfl⟩

/-- **A cancelled waiter that goes leaves all others as they are.** Its channel is not the one of the key any more. -/
theorem unmoved_release {n : Waiter → ℕ} (h : r.Accounts n) (hw : 0 < n w) (hc : r.isCancelled w = true) :
    Unmoved r (r.release w) w := by
  have hpast : ¬ r.Current w := by
    intro hcur
    rw [h.not_cancelled hcur] at hc
    cases hc
  obtain ⟨c, hchannel⟩ := channel?_of_held h hw
  refine ⟨?_, ?_, isCancelled_release r w⟩
  · intro w'
    rw [current_release hchannel]
    constructor
    · exact And.left
    · intro hcur
      exact ⟨hcur, fun ⟨heq, _⟩ => hpast (heq ▸ hcur)⟩
  · intro w' hne
    rw [channel?_release, if_neg hne]

/-- a key that was just cancelled has no channel -/
theorem opened_cancel (r : WaitRegistry) (key : JournalKey) : ((r.cancel key).line key).opened = none := by
  unfold cancel
  split
  · next hnone => exact hnone
  · rw [line_set]
    rfl

/-- a waiter that holds a channel of a key is on one that is closed once the key is cancelled -/
theorem channel_lt_cancel {n : Waiter → ℕ} (h : r.Accounts n) (hw : 0 < n w) :
    w.channel < ((r.cancel w.key).line w.key).closed.length := by
  have hopened := opened_cancel r w.key
  obtain ⟨c, hchannel⟩ := channel?_of_held (accounts_cancel h w.key) hw
  rw [channel?, Generations.get?] at hchannel
  split at hchannel
  · rw [hopened] at hchannel
    cases hchannel
  · exact (List.getElem?_eq_some_iff.1 hchannel).1

end WaitRegistry

namespace Feed

open WaitRegistry (Unmoved)

section Waiting

variable {encode : ω → Except WireError Data} {f : Feed β} {past : JournalKey → List EventRecord} {key : JournalKey}
  {id : String} {r : Reader β} {watch : Watch}

/-! ## Those who waited before -/

/-- what is known of a reader whose journal was torn down -/
structure Dismissed (encode : ω → Except WireError Data) (f : Feed β) (id : String) (r : Reader β) (watch : Watch) :
    Prop where
  parked : f.Parked id r watch
  woken : id ∈ f.wokenJobs
  /-- its next poll ends it without a look at any journal -/
  poll : f.poll id = ({ f with jobs := f.jobs.erase id, waits := f.waits.release watch.waiter },
    some (.finished (.error (.destroyed r.key.ns.object r.key.part))))
  /-- however it goes, the others do not notice -/
  leaves : ∀ op : Op ω β, op.job? = some id → Unmoved f.waits (f.step encode op).1.waits watch.waiter

theorem Parked.waits_drop (hp : f.Parked id r watch) : (f.drop id).1.waits = f.waits.release watch.waiter := by
  simp only [drop, hp.job, hp.parked]

theorem dismissed_of_cancelled (h : f.Sound past) (hp : f.Parked id r watch)
    (hc : f.waits.isCancelled watch.waiter = true) : Dismissed encode f id r watch := by
  have hwatching := h.watching id r watch hp.job hp.parked
  have hready := hwatching.cancelled hc
  have hunmoved := WaitRegistry.unmoved_release h.enlisted (holders_pos hp.job hp.parked) hc
  have hpoll : f.poll id = ({ f with jobs := f.jobs.erase id, waits := f.waits.release watch.waiter },
      some (.finished (.error (.destroyed r.key.ns.object r.key.part)))) := by
    simp only [poll, hp.job, pollReader, hp.parked, hready, if_true, advance, turns, turn_cancelled hc, hwatching.key]
  refine ⟨hp, hp.woken_iff.2 hready, hpoll, ?_⟩
  intro op hop
  have hdrop : Unmoved f.waits (f.drop id).1.waits watch.waiter := by
    rw [hp.waits_drop]
    exact hunmoved
  cases op with
  | startReader id' k s b =>
    obtain rfl : id' = id := Option.some.inj hop
    exact hdrop
  | poll id' =>
    obtain rfl : id' = id := Option.some.inj hop
    rw [step_poll, hpoll]
    exact hunmoved
  | drop id' =>
    obtain rfl : id' = id := Option.some.inj hop
    exact hdrop
  | startWatch id' name =>
    obtain rfl : id' = id := Option.some.inj hop
    rw [step_startWatch]
    unfold startWatch
    split
    · exact .refl f.waits watch.waiter
    · exact hdrop
  | _ => cases hop

/-- who waits on a journal when it is torn down is cancelled -/
theorem cancelled_destroy (h : f.Sound past) (hr : f.registered = true) (hp : f.Parked id r watch) (hk : r.key = key) :
    (f.destroy key).waits.isCancelled watch.waiter = true := by
  have hkey := (h.watching id r watch hp.job hp.parked).key.trans hk
  have hwaits : (f.destroy key).waits = f.waits.cancel key := by simp [destroy, hr]
  rw [hwaits, WaitRegistry.isCancelled_cancel]
  rcases h.enlisted.held watch.waiter (holders_pos hp.job hp.parked) with hcur | hc
  · simp [hkey, hcur]
  · simp [hc]

/-- **Who was cancelled stays so until the job is polled or dropped**, whatever is done in between. -/
theorem dismissed_run (h : f.Sound past) (hp : f.Parked id r watch) (hc : f.waits.isCancelled watch.waiter = true)
    {ops : List (Op ω β)} (hops : ∀ op ∈ ops, op.job? ≠ some id) : Dismissed encode (f.run encode ops).1 id r watch := by
  induction ops generalizing f past with
  | nil => exact dismissed_of_cancelled h hp hc
  | cons op ops ih =>
    have hop := hops op List.mem_cons_self
    apply ih (sound_step encode h op)
    · exact ⟨(step_reader_of_ne encode h.keyed hop r).2 hp.job, hp.parked⟩
    · rw [(step_signals encode h.keyed op watch.waiter).cancelled, hc, Bool.true_or]
    · intro op' hop'
      exact hops op' (List.mem_cons_of_mem op hop')

/-! ## The container that comes next -/

/-- how the container of a key came to be that an operation leaves: it was created empty, with the settings that are
admitted now, and used once -/
def Renewed (encode : ω → Except WireError Data) (f : Feed β) (op : Op ω β) (key : JournalKey)
    (c' : Container EventRecord) : Prop :=
  ∃ c config, New key c ∧ c.head = 0 ∧ c.tail = -1 ∧ f.resolver.Admits key.ns config c.config ∧
    Used c (op.appended? encode f key) c'

theorem New.empty {c : Container EventRecord} (h : New key c) : c.head = 0 ∧ c.tail = -1 := by
  have htail := h.records.tail
  have hnonneg := h.records.head_nonneg
  have hle := h.records.head_le
  simp only [List.length_nil] at htail
  omega

/-- a journal that had no container and has one after an operation got a new one -/
theorem renewed_of_new (h : f.Sound past) {op : Op ω β} (hop : op.gated = true) (hn : f.store.live? key = none)
    {c' : Container EventRecord} (hc : (f.step encode op).1.store.live? key = some c') : Renewed encode f op key c' := by
  obtain ⟨config, hadmits⟩ := (origin_of_new h hop hn hc).admitted
  have hfate := step_fate encode h.keyed op key
  unfold Store.live? at hn hc
  generalize (f.step encode op).1.store.journal key = g at hfate hc
  generalize op.tearsDown f key = torn at hfate
  unfold Renewed
  generalize op.appended? encode f key = a at hfate ⊢
  cases hfate with
  | kept =>
    rw [hn] at hc
    cases hc
  | used hd _ =>
    rw [hn] at hd
    cases hd
  | @begun c a c'' _ hnew hused =>
    cases hc
    rw [hused.config] at hadmits
    exact ⟨c, config, hnew, hnew.empty.1, hnew.empty.2, hadmits, hused⟩
  | behind hne _ _ =>
    rw [Generations.opened_modify_of_ne _ hne, hn] at hc
    cases hc
  | closed => cases hc

/-- the turns of a reader that stands leave what its look for the journal left -/
theorem Outcome.found {f' f₁ : Feed β} {w : Waiter} {s : Int} {b : Batch EventRecord β} {t : Turn β}
    {c : Container EventRecord} (ho : Outcome f w s b (f₁, t)) (hstand : f.waits.isCancelled w = false)
    (hlook : f.container? w.key = (f', .ok (some c))) : f₁ = f' := by
  cases ho with
  | dismissed hc =>
    rw [hstand] at hc
    cases hc
  | denied e _ hdenied => simp [container, hlook] at hdenied
  | served _ d _ _ hfound _ =>
    rw [hlook] at hfound
    cases hfound
    rfl

/-- a reader that is polled for the first time finds its journal, or creates it -/
theorem live_of_unborn (h : f.Sound past) (hjob : f.jobs.get? id = some (.reader r)) (hunborn : r.parked = none)
    {f' : Feed β} {c : Container EventRecord} (hlook : f.container? r.key = (f', .ok (some c))) :
    (f.poll id).1.store.live? r.key = some c := by
  obtain ⟨-, hlive, -⟩ := live_of_container? hlook
  have hstore : ∀ {f₀ f₁ : Feed β} {w : Waiter} {t : Turn β}, Enrolled f r f₀ w →
      Outcome f₀ w r.position r.batch (f₁, t) → f₁.store = f'.store := by
    intro f₀ f₁ w t he ho
    have haccounts := (he.accounts h.enlisted hjob).1
    cases he with
    | woken _ hp =>
      rw [hunborn] at hp
      cases hp
    | first =>
      have hstand := haccounts.not_cancelled (WaitRegistry.current_register f.waits r.key)
      have hlook' := container?_waits f (f.waits.register r.key).1 r.key
      rw [hlook] at hlook'
      rw [ho.found hstand hlook']
  obtain ⟨f'', p, heq, hpolled⟩ := poll_polled h.history.ringed hjob
  rw [heq]
  cases hpolled with
  | asleep _ hp =>
    rw [hunborn] at hp
    cases hp
  | ended f₀ f₁ w result he ho =>
    show f₁.store.live? r.key = some c
    rw [hstore he ho, hlive]
  | parked f₀ f₁ w watch position b he ho =>
    show f₁.store.live? r.key = some c
    rw [hstore he ho, hlive]

theorem needs_cases {op : Op ω β} (hop : op.needs f key = true) :
    (∃ id r, op = .poll id ∧ f.jobs.get? id = some (.reader r) ∧ r.key = key ∧ r.parked = none) ∨ op.uses key = true := by
  cases op with
  | poll id =>
    obtain ⟨job, hjob, hunborn⟩ := (Option.any_eq_true _ _).1 hop
    rcases job with r | _
    · obtain ⟨hkey, hnone⟩ := of_decide_eq_true hunborn
      exact Or.inl ⟨id, r, rfl, hjob, hkey, Option.isNone_iff_eq_none.1 hnone⟩
    · cases hunborn
  | _ => exact Or.inr hop

/-- **An operation that cannot do without a journal that can be had leaves it there.** -/
theorem live_of_needs (h : f.Sound past) (hprovides : f.provides key = true) {op : Op ω β}
    (hop : op.needs f key = true) : ((f.step encode op).1.store.live? key).isSome = true := by
  obtain ⟨f', c, hlook⟩ := found_of_provides hprovides
  obtain ⟨-, hlive, -⟩ := live_of_container? hlook
  have hck := key_of_container? h.keyed hlook
  have hfound : (f.container? key).1.store.live? key = some c := by rw [hlook, hlive]
  have hput : ∀ c' : Container EventRecord, c'.key = key → ((f'.store.put c').live? key).isSome = true := by
    intro c' hk
    rw [Store.live?, Store.journal_put hk]
    rfl
  rcases needs_cases hop with ⟨id, r, rfl, hjob, rfl, hunborn⟩ | huses
  · rw [step_poll, live_of_unborn h hjob hunborn hlook]
    rfl
  rcases uses_cases huses with ⟨now, change, rfl⟩ | hasks
  · have hwritten := write_written encode f key now change
    simp only [step, answer_fst]
    generalize (f.write encode key now change).1 = f'' at hwritten
    rcases hwritten with _ | ⟨a, hp⟩
    · rw [hfound]
      rfl
    · rw [hlook] at hp
      cases hp
      exact hput _ ((Container.key_append c a now).trans hck)
  rcases asking_of_asks encode hasks with ⟨γ, ask, give, hstep⟩ | ⟨now, rfl⟩
  · rw [hstep, answer_fst, query_fst, hfound]
    rfl
  · simp only [step, answer_fst]
    rcases cleanup_cases f key now with heq | ⟨f'', d, hp, heq⟩
    · rw [heq, hfound]
      rfl
    · rw [hlook] at hp
      cases hp
      rw [heq]
      exact hput _ ((Container.key_cleanup c now).trans hck)

end Waiting

/-! ## Before and after -/

/-- `g` is the feed `f` with a journal torn down, and `h` what a run `mid` makes of it -/
structure Separated (encode : ω → Except WireError Data) (key : JournalKey) (f g : Feed β) (mid : List (Op ω β))
    (h : Feed β) : Prop where
  container : g.store.live? key = none
  channel : (g.waits.line key).opened = none
  /-- who waited for the journal is woken; if nobody polls or drops the job before, its next poll ends it with the news that
  the journal is gone, and without a look at what has come in its place -/
  dismissed : ∀ id r watch, f.Parked id r watch → r.key = key → id ∈ g.wokenJobs ∧
    ((∀ op ∈ mid, op.job? ≠ some id) → Dismissed encode h id r watch)
  /-- a reader that is parked on the key later was parked in `g` already, or shares its registration with none that waited
  then -/
  later : ∀ id r watch, h.Parked id r watch → r.key = key →
    (∃ r₀ watch₀, g.Parked id r₀ watch₀ ∧ watch₀.waiter = watch.waiter) ∨
    ∀ id₀ r₀ watch₀, f.Parked id₀ r₀ watch₀ → r₀.key = key → watch.waiter ≠ watch₀.waiter
  /-- the next operation that needs a container and can have it leaves one there -/
  created : h.store.live? key = none → ∀ op : Op ω β, op.needs h key = true → h.Admitted key.ns →
    ((h.step encode op).1.store.live? key).isSome = true
  /-- whatever operation leaves one there, it was created empty under the settings of that moment -/
  renewed : h.store.live? key = none → ∀ op : Op ω β, op.gated = true → ∀ c,
    (h.step encode op).1.store.live? key = some c → Renewed encode h op key c
  /-- to those who hold it, the container that was torn down is what it was, unless they change it themselves; and it is
  never the live one again -/
  held : ∀ handle c, f.store.handle? key = some handle → f.store.live? key = some c →
    (∀ op ∈ mid, op.alters handle = false) → h.store.get? handle = some c ∧ h.store.handle? key ≠ some handle

/-- **Tearing a journal down separates those who were there before from all that comes later**, after any run and before any
other. -/
theorem destroy_separates (encode : ω → Except WireError Data) (resolver : Resolver) (registered : Bool)
    (ops mid : List (Op ω β)) (key : JournalKey) :
    let f : Feed β := (run encode (init resolver registered) ops).1
    let g := (f.step encode (.destroy key)).1
    f.registered = true → Separated encode key f g mid (g.run encode mid).1 := by
  intro f g hr
  have hf : f.Sound _ := sound_run encode (sound_init resolver registered) ops
  have hg : g.Sound _ := sound_step encode hf (.destroy key)
  have hh := sound_run encode hg mid
  have hregistered := registered_run encode hg (registered_step encode hf.keyed hr (.destroy key)) mid
  have hgstore : g.store = (f.store.discard key).1 := by simp [g, step, destroy, hr]
  have hgwaits : g.waits = f.waits.cancel key := by simp [g, step, destroy, hr]
  have hgjobs : g.jobs = f.jobs := by simp [g, step, destroy, hr]
  constructor
  · rw [hgstore, Store.live?_discard]
  · rw [hgwaits]
    exact WaitRegistry.opened_cancel f.waits key
  · intro id r watch hp hk
    have hp' : g.Parked id r watch := ⟨hgjobs ▸ hp.job, hp.parked⟩
    have hc : g.waits.isCancelled watch.waiter = true := cancelled_destroy hf hr hp hk
    have hdismissed : Dismissed encode g id r watch := dismissed_of_cancelled hg hp' hc
    exact ⟨hdismissed.woken, fun hmid => dismissed_run hg hp' hc hmid⟩
  · intro id r watch hp hk
    rcases parked_since hg hp with hbefore | hlater
    · exact Or.inl hbefore
    · right
      intro id₀ r₀ watch₀ hp₀ hk₀ heq
      -- who waited then was on a channel that is closed in `g`
      have hkey₀ := (hf.watching id₀ r₀ watch₀ hp₀.job hp₀.parked).key.trans hk₀
      have hclosed := WaitRegistry.channel_lt_cancel hf.enlisted (holders_pos hp₀.job hp₀.parked)
      rw [hkey₀, ← hgwaits, ← heq] at hclosed
      rw [heq, hkey₀, ← heq] at hlater
      omega
  · intro hn op hop hadmitted
    exact live_of_needs hh (provides_iff.2 ⟨hregistered, Or.inr hadmitted⟩) hop
  · intro hn op hop c hc
    exact renewed_of_new hh hop hn hc
  · intro handle c hhandle hc hmid
    obtain ⟨hretired, hget⟩ := Store.retired_discard hc hhandle
    rw [← hgstore] at hretired hget
    have hkeeps := keeps_run encode g hmid
    exact ⟨(hkeeps.same hretired).trans hget, (hkeeps.retired hretired).not_live key⟩

/-- one order, and a reader that waits for the next -/
def waitingForOrders : List (Op Data Data) := [addOrder 0, .startReader "old" ordersKey 1 oneBatch, .poll "old"]

/-- orders beyond what the old reader waited for, and a new reader that waits for more -/
def ordersAnew : List (Op Data Data) := [addOrder 1, addOrder 2, .startReader "new" ordersKey 2 oneBatch, .poll "new"]

/-- the new reader, parked behind the second of the new orders -/
def newReader : Reader Data := ⟨ordersKey, 2, oneBatch, some ⟨⟨ordersKey, 1⟩, 0⟩⟩

def waitingFeed : Feed Data := (run .ok (init smallResolver true) waitingForOrders).1

def tornFeed : Feed Data := (waitingFeed.step .ok (.destroy ordersKey : Op Data Data)).1

def renewedFeed : Feed Data := (tornFeed.run .ok ordersAnew).1

theorem destroy_separates_orders :
    waitingFeed.registered = true ∧ tornFeed.store.live? ordersKey = none ∧ "old" ∈ tornFeed.wokenJobs ∧
      (∃ c, (tornFeed.step .ok (addOrder 1)).1.store.live? ordersKey = some c ∧
        Renewed .ok tornFeed (addOrder 1) ordersKey c) ∧
      Dismissed (ω := Data) .ok renewedFeed "old" parkedReader ⟨⟨ordersKey, 0⟩, 0⟩ ∧
      renewedFeed.Parked "new" newReader ⟨⟨ordersKey, 1⟩, 0⟩ ∧
      ∃ c, waitingFeed.store.live? ordersKey = some c ∧ c.tail = 0 ∧ renewedFeed.store.get? ⟨ordersKey, 0⟩ = some c ∧
        renewedFeed.store.handle? ordersKey = some ⟨ordersKey, 1⟩ := by
  have hp : waitingFeed.Parked "old" parkedReader ⟨⟨ordersKey, 0⟩, 0⟩ := ⟨rfl, rfl⟩
  have hadmitted : tornFeed.Admitted ordersKey.ns :=
    ⟨.ofCapacity 4, ⟨4, 0, 0, 0, .object⟩, Resolver.admits_of_split rfl (by decide +kernel)⟩
  have hview : (waitingFeed.store.live? ordersKey).map Container.tail = some 0 := by decide +kernel
  obtain ⟨c, hc, htail⟩ := Option.map_eq_some_iff.1 hview
  have hnow : Separated .ok ordersKey waitingFeed tornFeed [] tornFeed :=
    destroy_separates .ok smallResolver true waitingForOrders [] ordersKey rfl
  have hthen : Separated .ok ordersKey waitingFeed tornFeed ordersAnew renewedFeed :=
    destroy_separates .ok smallResolver true waitingForOrders ordersAnew ordersKey rfl
  have hnone := hnow.container
  obtain ⟨c', hc'⟩ := Option.isSome_iff_exists.1 (hnow.created hnone (addOrder 1) rfl hadmitted)
  have hheld := (hthen.held ⟨ordersKey, 0⟩ c (by decide +kernel) hc (by decide)).1
  have hdismissed := (hthen.dismissed "old" parkedReader _ hp rfl).2 (by decide)
  refine ⟨rfl, hnone, (hnow.dismissed "old" parkedReader _ hp rfl).1, ?_, hdismissed, ⟨rfl, rfl⟩, ?_⟩
  · exact ⟨c', hc', hnow.renewed hnone (addOrder 1) rfl c' hc'⟩
  · exact ⟨c, hc, htail, hheld, by decide +kernel⟩

end Feed

end Changefeed
