/-
Who is registered, and on which channel. The registry only counts the holders of a channel, and finds channels by key; what
it ought to know is told by the run: for everyone who holds a registration, under which key it was made, and whether the key
was cancelled since (`enrolment`). A registration whose key was not cancelled since is on the channel that the key has now,
together with all others of the kind, and a key has a channel exactly if there is one; the others are stale, and when they go
nobody else notices.

Results:
- `registration_step`: an operation leaves a registration as it was, or makes it on the current channel of its key;
- `enrols_run`: the registry agrees with the run about everyone who is registered;
- `registrations_kept`: which keys have a channel, how many they are, and what becomes of stale registrations.
-/
import Changefeed.Proofs.Refusals
import Changefeed.Proofs.Teardown

namespace Changefeed

variable {ω β : Type}

/-- who can hold a registration: a named waiter, or the reader of a job -/
inductive Holder where
  | named (name : String)
  | reader (id : String)
deriving DecidableEq, Repr

/-- a reader holds a registration from its first poll on -/
def Job.registration? : Job β → Option Waiter
  | .reader r => r.parked.map Watch.waiter
  | .watch .. => none

theorem Job.holds_iff {job : Job β} {w : Waiter} : job.holds w = true ↔ job.registration? = some w := by
  cases job with
  | reader r => cases hp : r.parked <;> simp [Job.holds, Job.registration?, hp]
  | watch owner watch polled => simp [Job.holds, Job.registration?]

/-- the registration of a holder -/
def Feed.registration? (f : Feed β) : Holder → Option Waiter
  | .named name => f.waiters.get? name
  | .reader id => (f.jobs.get? id).bind Job.registration?

/-- the operation registers a holder, under this key: it adds the waiter, or is the first poll of the reader -/
def Op.registers? (f : Feed β) (holder : Holder) : Op ω β → Option JournalKey
  | .addWaiter name key => if .named name = holder then some key else none
  | .poll id =>
    match f.jobs.get? id with
    | some (.reader r) => if .reader id = holder ∧ r.parked.isNone = true then some r.key else none
    | _ => none
  | _ => none

/-- the operation can end what a holder has, and registers nobody -/
def Op.leaves : Holder → Op ω β → Bool
  | .named name, .dropWaiter name' => name' = name
  | .reader id, op => op.job? = some id
  | _, _ => false

/-- a registration in the eyes of the run: its key, and whether the key was cancelled since -/
structure Enrolment where
  key : JournalKey
  cancelled : Bool
deriving DecidableEq, Repr

/-- the last registration of a holder after one more operation -/
def Op.enrols (f : Feed β) (holder : Holder) (last : Option Enrolment) (op : Op ω β) : Option Enrolment :=
  match op.registers? f holder with
  | some key => some ⟨key, false⟩
  | none => last.map fun e => ⟨e.key, e.cancelled || op.dismisses f e.key⟩

namespace WaitRegistry

/-- a current channel is held -/
theorem Accounts.pos_of_current {r : WaitRegistry} {n : Waiter → ℕ} (h : r.Accounts n) {w : Waiter} (hw : r.Current w) :
    0 < n w := by
  obtain ⟨c, hc⟩ := Option.isSome_iff_exists.1 (current_iff.1 hw).1
  exact (h.current w c hw ((channel?_current hw).trans hc)).2.2

/-- the key has a channel -/
def has (r : WaitRegistry) (key : JournalKey) : Bool := (r.line key).opened.isSome

theorem has_iff {r : WaitRegistry} {key : JournalKey} : r.has key = true ↔ ∃ w, r.Current w ∧ w.key = key := by
  constructor
  · intro h
    exact ⟨⟨key, (r.line key).closed.length⟩, current_iff.2 ⟨h, rfl⟩, rfl⟩
  · rintro ⟨w, hw, rfl⟩
    exact (current_iff.1 hw).1

/-- the size is the number of keys that have a channel -/
theorem size_eq_card (r : WaitRegistry) :
    ∃ keys : Finset JournalKey, (∀ key, key ∈ keys ↔ r.has key = true) ∧ r.size = keys.card := by
  obtain ⟨keys, hkeys, hcard⟩ := r.channels.count_eq_card fun g => g.opened.isSome
  refine ⟨keys, fun key => (hkeys key).trans ?_, hcard⟩
  rw [has, line]
  cases r.channels.get? key with
  | none => simp [Generations.empty]
  | some g => simp

end WaitRegistry

namespace Feed

/-- the last registration of a holder after a run -/
def enrolment (encode : ω → Except WireError Data) (holder : Holder) :
    Feed β → Option Enrolment → List (Op ω β) → Option Enrolment
  | _, last, [] => last
  | f, last, op :: ops => enrolment encode holder (f.step encode op).1 (op.enrols f holder last) ops

section Registrations

variable {encode : ω → Except WireError Data} {f : Feed β} {past : JournalKey → List EventRecord} {holder : Holder}
  {w : Waiter} {id name : String} {op : Op ω β}

/-! ## Holders are counted -/

theorem holders_pos_iff : 0 < f.holders w ↔ ∃ holder, f.registration? holder = some w := by
  constructor
  · intro hpos
    rcases Nat.add_pos_iff_pos_or_pos.1 hpos with hjobs | hwaiters
    · obtain ⟨⟨id, job⟩, hmem, hholds⟩ := List.countP_pos_iff.1 hjobs
      refine ⟨.reader id, ?_⟩
      rw [registration?, (Table.mem_entries_iff _ _ _).1 hmem, Option.bind_some, Job.holds_iff.1 hholds]
    · obtain ⟨⟨name, w'⟩, hmem, heq⟩ := List.countP_pos_iff.1 hwaiters
      refine ⟨.named name, ?_⟩
      obtain rfl : w' = w := of_decide_eq_true heq
      exact (Table.mem_entries_iff _ _ _).1 hmem
  · rintro ⟨name | id, hholder⟩
    · exact Nat.add_pos_right _ (Table.count_pos hholder (decide_eq_true rfl))
    · obtain ⟨job, hjob, hheld⟩ := Option.bind_eq_some_iff.1 hholder
      exact Nat.add_pos_left (Table.count_pos hjob (Job.holds_iff.2 hheld)) _

theorem Sound.held (h : f.Sound past) (hholder : f.registration? holder = some w) :
    f.waits.Current w ∨ f.waits.isCancelled w = true :=
  h.enlisted.held w (holders_pos_iff.2 ⟨holder, hholder⟩)

theorem Sound.current_iff (h : f.Sound past) (hholder : f.registration? holder = some w) :
    f.waits.Current w ↔ f.waits.isCancelled w = false := by
  constructor
  · exact h.enlisted.not_cancelled
  · exact h.enlisted.current_of_held (holders_pos_iff.2 ⟨holder, hholder⟩)

/-! ## How registrations come and go -/

/-- how a holder came by the registration that it has after an operation: it had it before, or was registered now, on the
current channel of its key -/
inductive Registers (f : Feed β) (op : Op ω β) (holder : Holder) (w : Waiter) (r : WaitRegistry) : Prop
  | kept (hn : op.registers? f holder = none) (hf : f.registration? holder = some w) : Registers f op holder w r
  | made (hn : op.registers? f holder = some w.key) (hc : r.Current w) : Registers f op holder w r

theorem registration?_reader : f.registration? (.reader id) = some w ↔
    ∃ r watch, f.jobs.get? id = some (.reader r) ∧ r.parked = some watch ∧ watch.waiter = w := by
  rw [registration?, Option.bind_eq_some_iff]
  constructor
  · rintro ⟨r | _, hjob, hr⟩
    · obtain ⟨watch, hp, hw⟩ := Option.map_eq_some_iff.1 hr
      exact ⟨r, watch, hjob, hp, hw⟩
    · cases hr
  · rintro ⟨r, watch, hjob, hp, rfl⟩
    exact ⟨.reader r, hjob, by rw [Job.registration?, hp, Option.map_some]⟩

/-- a reader that is polled registers at its first poll only -/
theorem registers?_poll {r : Reader β} (hjob : f.jobs.get? id = some (.reader r)) :
    (Op.poll id : Op ω β).registers? f (.reader id) = if r.parked.isNone = true then some r.key else none := by
  simp [Op.registers?, hjob]

theorem registers_reader (h : f.Sound past) (op : Op ω β)
    (hholder : (f.step encode op).1.registration? (.reader id) = some w) :
    Registers f op (.reader id) w (f.step encode op).1.waits := by
  obtain ⟨r, watch, hjob, hp, rfl⟩ := registration?_reader.1 hholder
  have hbefore : f.jobs.get? id = some (.reader r) → f.registration? (.reader id) = some watch.waiter := by
    intro hr
    exact registration?_reader.2 ⟨r, watch, hr, hp, rfl⟩
  have hstands := step_stands encode h.keyed h.history.ringed hjob
  cases hstands with
  | other hne hr =>
    refine .kept ?_ (hbefore hr)
    cases op with
    | poll id' =>
      have hid : id' ≠ id := fun hid => hne (congrArg some hid)
      simp only [Op.registers?]
      split <;> simp [hid]
    | _ => simp [Op.registers?]
  | still hop hf hr =>
    refine .kept ?_ (hbefore hr)
    cases op with
    | poll id' =>
      by_cases hid : id' = id
      · subst hid
        rw [registers?_poll hr, hp]
        rfl
      · simp only [Op.registers?]
        split <;> simp [hid]
    | _ => simp [Op.registers?]
  | started _ => cases hp
  | parked hpoll hr he ho hf =>
    subst hpoll
    cases hp
    obtain ⟨c, hparks⟩ := ho.parks
    obtain ⟨-, -, hwaits⟩ := live_of_container? hparks.found
    rw [hparks.watch]
    cases he with
    | woken watch' hp' _ =>
      refine .kept ?_ (registration?_reader.2 ⟨_, watch', hr, hp', rfl⟩)
      rw [registers?_poll hr, hp']
      rfl
    | first hn =>
      refine .made ?_ ?_
      · rw [registers?_poll hr, hn]
        rfl
      · rw [hf, hwaits]
        exact WaitRegistry.current_register f.waits _

theorem registers_named (h : f.Sound past) (op : Op ω β)
    (hholder : (f.step encode op).1.registration? (.named name) = some w) :
    Registers f op (.named name) w (f.step encode op).1.waits := by
  by_cases hname : op.waiter? = some name
  · cases op with
    | addWaiter name' key =>
      obtain rfl : name' = name := Option.some.inj hname
      have hw : (f.addWaiter name' key).2 = w := by
        refine Option.some.inj (Eq.trans ?_ hholder)
        exact (Table.get?_set_self _ name' _).symm
      subst hw
      exact .made (by simp [Op.registers?]; rfl) (WaitRegistry.current_register _ key)
    | dropWaiter name' =>
      obtain rfl : name' = name := Option.some.inj hname
      exact absurd ((get?_waiters_dropWaiter f name').symm.trans hholder) (by simp)
    | _ => cases hname
  · have hquiet : op.registers? f (.named name) = none := by
      cases op with
      | addWaiter name' key => simpa [Op.registers?, Op.waiter?] using hname
      | poll id =>
        simp only [Op.registers?]
        split <;> simp
      | _ => rfl
    exact .kept hquiet ((step_waiter_of_ne encode h.keyed h.history.ringed hname).symm.trans hholder)

/-- **An operation leaves a registration as it was, or makes it anew on the current channel of its key.** -/
theorem registration_step (h : f.Sound past) (op : Op ω β)
    (hholder : (f.step encode op).1.registration? holder = some w) :
    Registers f op holder w (f.step encode op).1.waits := by
  cases holder with
  | named name => exact registers_named h op hholder
  | reader id => exact registers_reader h op hholder

/-! ## The registry agrees with the run -/

/-- everyone who is registered is so as the run tells it: under this key, and cancelled or not -/
def Enrols (f : Feed β) (roll : Holder → Option Enrolment) : Prop :=
  ∀ holder w, f.registration? holder = some w → roll holder = some ⟨w.key, f.waits.isCancelled w⟩

theorem enrols_init (resolver : Resolver) (registered : Bool) :
    (init resolver registered : Feed β).Enrols fun _ => none := by
  rintro (name | id) w hholder <;> cases hholder

theorem enrols_step (h : f.Sound past) {roll : Holder → Option Enrolment} (hroll : f.Enrols roll) (op : Op ω β) :
    (f.step encode op).1.Enrols fun holder => op.enrols f holder (roll holder) := by
  intro holder w hholder
  have hsound := sound_step encode h op
  cases registration_step h op hholder with
  | kept hn hf =>
    have hsignals := step_signals encode h.keyed op w
    have hcancelled : (f.step encode op).1.waits.isCancelled w = (f.waits.isCancelled w || op.dismisses f w.key) := by
      rw [hsignals.cancelled]
      rcases h.held hf with hcur | hc
      · simp [hcur]
      · simp [hc]
    simp only [Op.enrols, hn, hroll holder w hf, Option.map_some, hcancelled]
  | made hn hc => simp only [Op.enrols, hn, hsound.enlisted.not_cancelled hc]

/-- **The registry agrees with the run** about everyone who is registered. -/
theorem enrols_run (h : f.Sound past) {roll : Holder → Option Enrolment} (hroll : f.Enrols roll)
    (ops : List (Op ω β)) :
    (f.run encode ops).1.Enrols fun holder => enrolment encode holder f (roll holder) ops := by
  induction ops generalizing f past roll with
  | nil => exact hroll
  | cons op ops ih => exact ih (sound_step encode h op) (enrols_step h hroll op)

/-! ## What becomes of stale registrations -/

/-- **A cancelled holder that goes leaves all others as they are**, in whatever way it goes. -/
theorem unmoved_leaves (h : f.Sound past) (hholder : f.registration? holder = some w)
    (hc : f.waits.isCancelled w = true) (hop : op.leaves holder = true) :
    WaitRegistry.Unmoved f.waits (f.step encode op).1.waits w := by
  cases holder with
  | named name =>
    cases op with
    | dropWaiter name' =>
      obtain rfl : name' = name := of_decide_eq_true hop
      have hwaits : (f.step encode (.dropWaiter name')).1.waits = f.waits.release w := by
        simp only [step, dropWaiter, show f.waiters.get? name' = some w from hholder]
      rw [hwaits]
      exact WaitRegistry.unmoved_release h.enlisted (holders_pos_iff.2 ⟨.named name', hholder⟩) hc
    | _ => cases hop
  | reader id =>
    obtain ⟨r, watch, hjob, hp, rfl⟩ := registration?_reader.1 hholder
    have hdismissed : Dismissed encode f id r watch := dismissed_of_cancelled h ⟨hjob, hp⟩ hc
    exact hdismissed.leaves op (of_decide_eq_true hop)

end Registrations

/-- **The registry keeps registrations.** After any run:
- a key has a channel exactly if somebody is registered under it since its last cancel;
- all who are registered under a key since its last cancel are on the channel that the key has;
- a registration is reported cancelled exactly if its key was cancelled after it was made;
- the registry's size is the number of keys under which somebody is registered and not cancelled;
- so without registrations it is zero;
- when a holder goes that was cancelled, nobody else notices, and every key keeps the channel that it has. -/
theorem registrations_kept (encode : ω → Except WireError Data) (resolver : Resolver) (registered : Bool)
    (ops : List (Op ω β)) :
    let start : Feed β := init resolver registered
    let f := (start.run encode ops).1
    let last := fun holder => enrolment encode holder start none ops
    (∀ key, f.waits.has key = true ↔
      ∃ holder w, f.registration? holder = some w ∧ w.key = key ∧ last holder = some ⟨key, false⟩) ∧
    (∀ holder w, f.registration? holder = some w → last holder = some ⟨w.key, false⟩ →
      (f.waits.line w.key).openId? = some w.channel) ∧
    (∀ holder w, f.registration? holder = some w → last holder = some ⟨w.key, f.waits.isCancelled w⟩) ∧
    (∃ keys : Finset JournalKey, f.waits.size = keys.card ∧ ∀ key, key ∈ keys ↔
      ∃ holder w, f.registration? holder = some w ∧ w.key = key ∧ f.waits.isCancelled w = false) ∧
    ((∀ holder, f.registration? holder = none) → f.waits.size = 0) ∧
    (∀ holder w, f.registration? holder = some w → f.waits.isCancelled w = true → ∀ op : Op ω β,
      op.leaves holder = true → WaitRegistry.Unmoved f.waits (f.step encode op).1.waits w) := by
  intro start f last
  have h : f.Sound _ := sound_run encode (sound_init resolver registered) ops
  have hroll : f.Enrols last := enrols_run (sound_init resolver registered) (enrols_init resolver registered) ops
  have hhas : ∀ key, f.waits.has key = true ↔
      ∃ holder w, f.registration? holder = some w ∧ w.key = key ∧ f.waits.isCancelled w = false := by
    intro key
    rw [WaitRegistry.has_iff]
    constructor
    · rintro ⟨w, hcur, hk⟩
      obtain ⟨holder, hholder⟩ := holders_pos_iff.1 (h.enlisted.pos_of_current hcur)
      exact ⟨holder, w, hholder, hk, h.enlisted.not_cancelled hcur⟩
    · rintro ⟨holder, w, hholder, hk, hc⟩
      exact ⟨w, (h.current_iff hholder).2 hc, hk⟩
  obtain ⟨keys, hkeys, hsize⟩ := f.waits.size_eq_card
  refine ⟨?_, ?_, hroll, ⟨keys, hsize, fun key => (hkeys key).trans (hhas key)⟩, ?_, ?_⟩
  · intro key
    rw [hhas]
    constructor
    · rintro ⟨holder, w, hholder, rfl, hc⟩
      exact ⟨holder, w, hholder, rfl, hc ▸ hroll holder w hholder⟩
    · rintro ⟨holder, w, hholder, rfl, hlast⟩
      have hrolled := hroll holder w hholder
      rw [hlast, Option.some.injEq, Enrolment.mk.injEq] at hrolled
      exact ⟨holder, w, hholder, rfl, hrolled.2.symm⟩
  · intro holder w hholder hlast
    have hrolled := hroll holder w hholder
    rw [hlast, Option.some.injEq, Enrolment.mk.injEq] at hrolled
    exact (h.current_iff hholder).2 hrolled.2.symm
  · intro hnone
    have hempty : keys = ∅ := by
      refine Finset.eq_empty_of_forall_notMem fun key hkey => ?_
      obtain ⟨holder, w, hholder, -, -⟩ := (hhas key).1 ((hkeys key).1 hkey)
      rw [hnone holder] at hholder
      cases hholder
    rw [hsize, hempty, Finset.card_empty]
  · intro holder w hholder hc op hop
    exact unmoved_leaves h hholder hc hop

/-- a waiter and a reader of the orders are cancelled together, and one that comes later is not; it keeps its channel when
the others go, and takes it with it when it goes as the last -/
theorem registrations_kept_orders :
    let pre : List (Op Data Data) := [.addWaiter "a" ordersKey, .startReader "r" ordersKey 0 oneBatch, .poll "r",
      .cancel ordersKey, .addWaiter "b" ordersKey]
    let f := (run .ok (init smallResolver true : Feed Data) pre).1
    let g := (f.step .ok (.poll "r")).1
    let rest : List (Op Data Data) := [.poll "r", .dropWaiter "a", .dropWaiter "b"]
    f.registration? (.reader "r") = some ⟨ordersKey, 0⟩ ∧ f.registration? (.named "b") = some ⟨ordersKey, 1⟩ ∧
      f.waits.isCancelled ⟨ordersKey, 0⟩ = true ∧ f.waits.has ordersKey = true ∧ f.waits.size = 1 ∧
      g.waits.Current ⟨ordersKey, 1⟩ ∧ (run .ok (init smallResolver true : Feed Data) (pre ++ rest)).1.waits.size = 0 := by
  intro pre f g rest
  have hcancelled : f.waits.isCancelled ⟨ordersKey, 0⟩ = true := by decide +kernel
  obtain ⟨hkeys, hcurrent, -, -, -, hgoes⟩ := registrations_kept .ok smallResolver true pre
  have hhas := (hkeys ordersKey).2 ⟨.named "b", ⟨ordersKey, 1⟩, rfl, rfl, by decide +kernel⟩
  have hcur := hcurrent (.named "b") ⟨ordersKey, 1⟩ rfl (by decide +kernel)
  have hunmoved := hgoes (.reader "r") ⟨ordersKey, 0⟩ rfl hcancelled (.poll "r") (by decide)
  obtain ⟨-, -, -, -, hzero, -⟩ := registrations_kept .ok smallResolver true (pre ++ rest)
  refine ⟨rfl, rfl, hcancelled, hhas, by decide +kernel, (hunmoved.current _).2 hcur, hzero ?_⟩
  rintro (name | id) <;> rfl

end Feed

end Changefeed
