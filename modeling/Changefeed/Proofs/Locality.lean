/-
What an operation on a journal depends on. Two feeds look alike from a journal if they have the same surroundings, the same
containers and channels of this journal, and the same readers and waiters on it (`Alike`); what they have of other journals
does not matter, not even if it shares the settings. An operation on the journal then answers the same in both, and leaves
feeds that look alike again (`Same`).

Results:
- `same_container?`, `same_query`, `same_write`, `same_cleanup`: operations on the records;
- `same_turns`, `same_poll`: operations on the readers;
- `alike_drop`, `alike_dropWaiter`, `same_addWaiter`, `same_startWatch`: readers and waiters that come and go;
- `same_step`: every operation that concerns the journal.
-/
import Changefeed.Proofs.Wakeup

namespace Changefeed

variable {ω β γ : Type}

namespace Table

variable {κ α : Type} [DecidableEq κ] {p : α → Prop} {t t' t'' : Table κ α}

/-- the same entries, as far as their values satisfy `p` -/
def Agree (p : α → Prop) (t t' : Table κ α) : Prop := ∀ k a, p a → (t'.get? k = some a ↔ t.get? k = some a)

theorem Agree.refl (t : Table κ α) : Agree p t t := fun _ _ _ => Iff.rfl

theorem Agree.symm (h : Agree p t t') : Agree p t' t := fun k a ha => (h k a ha).symm

theorem Agree.trans (h : Agree p t t') (h' : Agree p t' t'') : Agree p t t'' :=
  fun k a ha => (h' k a ha).trans (h k a ha)

theorem Agree.set (h : Agree p t t') (k : κ) (a : α) : Agree p (t.set k a) (t'.set k a) := by
  intro j b hb
  by_cases hj : j = k
  · rw [hj, get?_set_self, get?_set_self]
  · rw [get?_set_of_ne _ hj, get?_set_of_ne _ hj]
    exact h j b hb

theorem Agree.erase (h : Agree p t t') (k : κ) : Agree p (t.erase k) (t'.erase k) := by
  intro j b hb
  by_cases hj : j = k
  · rw [hj, get?_erase_self, get?_erase_self]
  · rw [get?_erase_of_ne _ hj, get?_erase_of_ne _ hj]
    exact h j b hb

/-- a key whose value does not count can be erased -/
theorem agree_erase {k : κ} (hk : ∀ a, t.get? k = some a → ¬ p a) : Agree p t (t.erase k) := by
  intro j b hb
  by_cases hj : j = k
  · subst hj
    rw [get?_erase_self]
    constructor
    · intro h
      cases h
    · intro h
      exact absurd hb (hk b h)
  · rw [get?_erase_of_ne _ hj]

theorem not_of_free {k : κ} (h : t.get? k = none) : ∀ a, t.get? k = some a → ¬ p a := by
  intro a ha
  rw [h] at ha
  cases ha

/-- it can also be set to another value that does not count -/
theorem agree_set {k : κ} {a : α} (hk : ∀ a, t.get? k = some a → ¬ p a) (ha : ¬ p a) : Agree p t (t.set k a) := by
  intro j b hb
  by_cases hj : j = k
  · subst hj
    rw [get?_set_self]
    constructor
    · intro h
      cases h
      exact absurd hb ha
    · intro h
      exact absurd hb (hk b h)
  · rw [get?_set_of_ne _ hj]

end Table

namespace WaitRegistry

variable {r r' : WaitRegistry} {w : Waiter} {key : JournalKey}

theorem SameLine.refl (r : WaitRegistry) (key : JournalKey) : SameLine r r key := ⟨rfl⟩

theorem SameLine.symm (h : SameLine r r' key) : SameLine r' r key := ⟨h.line.symm⟩

theorem SameLine.trans {r'' : WaitRegistry} (h : SameLine r r' key) (h' : SameLine r' r'' key) : SameLine r r'' key :=
  ⟨h'.line.trans h.line⟩

theorem SameLine.wakeups (h : SameLine r r' w.key) : r'.wakeups w = r.wakeups w := by
  rw [wakeups_eq, wakeups_eq, h.channel?]

theorem SameLine.isCancelled (h : SameLine r r' w.key) : r'.isCancelled w = r.isCancelled w := by
  rw [isCancelled_eq, isCancelled_eq, h.channel?]

theorem SameLine.watch (h : SameLine r r' w.key) : r'.watch w = r.watch w := by
  rw [WaitRegistry.watch, WaitRegistry.watch, h.wakeups]

theorem SameLine.ready {watch : Watch} (h : SameLine r r' watch.waiter.key) : r'.ready watch = r.ready watch := by
  rw [WaitRegistry.ready, WaitRegistry.ready, h.wakeups]

theorem SameLine.register (h : SameLine r r' key) :
    (r'.register key).2 = (r.register key).2 ∧ SameLine (r.register key).1 (r'.register key).1 key := by
  refine ⟨?_, ⟨?_⟩⟩
  · simp only [WaitRegistry.register, h.line]
  · simp only [WaitRegistry.register, h.line, line_set]

theorem SameLine.release (h : SameLine r r' w.key) : SameLine (r.release w) (r'.release w) w.key := by
  refine ⟨?_⟩
  simp only [WaitRegistry.release, h.line, line_set]

theorem SameLine.wake (h : SameLine r r' key) : SameLine (r.wake key) (r'.wake key) key := by
  refine ⟨?_⟩
  unfold WaitRegistry.wake
  rw [h.line]
  cases (r.line key).opened with
  | none => exact h.line
  | some c => simp only [line_set]

theorem SameLine.cancel (h : SameLine r r' key) : SameLine (r.cancel key) (r'.cancel key) key := by
  refine ⟨?_⟩
  unfold WaitRegistry.cancel
  rw [h.line]
  cases (r.line key).opened with
  | none => exact h.line
  | some c => simp only [line_set]

end WaitRegistry

namespace Store

variable {α : Type} {s s' : Store α} {key : JournalKey}

theorem discard_eq (h : s'.journal key = s.journal key) : (s'.discard key).2 = (s.discard key).2 := by
  have hlive : s'.live? key = s.live? key := by rw [live?, live?, h]
  unfold discard
  rw [hlive]
  cases s.live? key <;> rfl

theorem journal_modify (h : s'.journal key = s.journal key) {handle : Handle} (hk : handle.key = key)
    (act : Container α → Container α) : (s'.modify handle act).journal key = (s.modify handle act).journal key := by
  subst hk
  rw [journal_modify_self, journal_modify_self, h]

end Store

/-! ## What a journal sees of the feed -/

/-- the journal that a job is on -/
def Job.key : Job β → JournalKey
  | .reader r => r.key
  | .watch _ w _ => w.waiter.key

/-- the journal that an operation is about, by itself or through the reader or waiter that it names -/
def Op.address? (f : Feed β) : Op ω β → Option JournalKey
  | .startReader _ key _ _ => some key
  | .poll id => (f.jobs.get? id).map Job.key
  | .drop id => (f.jobs.get? id).map Job.key
  | .addWaiter _ key => some key
  | .startWatch _ name => (f.waiters.get? name).map Waiter.key
  | .waiterCancelled name => (f.waiters.get? name).map Waiter.key
  | .dropWaiter name => (f.waiters.get? name).map Waiter.key
  | op => op.journal?

/-- the operation is about what the journals of a namespace have around them: the settings, the number of partitions, the
store service -/
def Op.surrounds (ns : Namespace) : Op ω β → Bool
  | .hasJournal ns' => ns' = ns
  | .journalConfig ns' => ns' = ns
  | .setRegistry _ => true
  | .setVersion _ => true
  | .setPartitions _ => true
  | .registerStore => true
  | .storeService => true
  | .partitionCount => true
  | .storageConfig _ => true
  | _ => false

/-- the operation is about a journal: about itself, or about its surroundings -/
def Op.concerns (f : Feed β) (key : JournalKey) (op : Op ω β) : Bool := op.surrounds key.ns || op.address? f = some key

namespace Feed

/-- two feeds that look alike from a journal -/
structure Alike (key : JournalKey) (f f' : Feed β) : Prop where
  resolver : f'.resolver = f.resolver
  registered : f'.registered = f.registered
  journal : f'.store.journal key = f.store.journal key
  line : WaitRegistry.SameLine f.waits f'.waits key
  jobs : Table.Agree (fun job => job.key = key) f.jobs f'.jobs
  waiters : Table.Agree (fun w => w.key = key) f.waiters f'.waiters

/-- the readers and waiters of a feed are on the journals that they say -/
structure Orderly (f : Feed β) : Prop where
  keyed : f.store.Keyed
  parked : ∀ id r watch, f.jobs.get? id = some (.reader r) → r.parked = some watch → watch.waiter.key = r.key
  /-- whoever waits for a named waiter waits for the one that has the name now -/
  owned : ∀ id name watch polled, f.jobs.get? id = some (.watch name watch polled) →
    f.waiters.get? name = some watch.waiter

/-- two outcomes of an operation that look alike from a journal, with the same answer -/
structure Same (key : JournalKey) (p p' : Feed β × γ) : Prop where
  feed : Alike key p.1 p'.1
  answer : p'.2 = p.2

section Locality

variable {key : JournalKey} {f f' f'' : Feed β}

theorem Alike.refl (key : JournalKey) (f : Feed β) : Alike key f f := ⟨rfl, rfl, rfl, .refl _ _, .refl _, .refl _⟩

theorem Alike.symm (h : Alike key f f') : Alike key f' f :=
  ⟨h.resolver.symm, h.registered.symm, h.journal.symm, h.line.symm, h.jobs.symm, h.waiters.symm⟩

theorem Alike.trans (h : Alike key f f') (h' : Alike key f' f'') : Alike key f f'' :=
  ⟨h'.resolver.trans h.resolver, h'.registered.trans h.registered, h'.journal.trans h.journal, h.line.trans h'.line,
    h.jobs.trans h'.jobs, h.waiters.trans h'.waiters⟩

theorem Alike.live? (h : Alike key f f') : f'.store.live? key = f.store.live? key := by
  rw [Store.live?, Store.live?, h.journal]

theorem Alike.handle? (h : Alike key f f') : f'.store.handle? key = f.store.handle? key := by
  rw [Store.handle?, Store.handle?, h.journal]

theorem Alike.get? (h : Alike key f f') {handle : Handle} (hk : handle.key = key) :
    f'.store.get? handle = f.store.get? handle := by
  rw [Store.get?, Store.get?, hk, h.journal]

/-- two outcomes with the same answer, taken apart -/
theorem Same.parts {p p' : Feed β × γ} (h : Same key p p') :
    ∃ f f' a, p = (f, a) ∧ p' = (f', a) ∧ Alike key f f' :=
  ⟨p.1, p'.1, p.2, rfl, Prod.ext rfl h.answer, h.feed⟩

theorem same_of_answer {δ : Type} {p p' : Feed β × Except JournalError δ} (h : Same key p p') (give : δ → Answer β) :
    Same key (answer give p) (answer give p') := by
  obtain ⟨f₁, f₁', a, rfl, rfl, h₁⟩ := h.parts
  cases a <;> exact ⟨h₁, rfl⟩

/-! ## Records -/

theorem alike_beginWith (h : Alike key f f') (c : Container EventRecord) :
    Alike key (f.beginWith key c) (f'.beginWith key c) := by
  refine ⟨h.resolver, h.registered, ?_, h.line, h.jobs, h.waiters⟩
  rw [journal_beginWith, journal_beginWith, h.journal]

/-- **Looking for a journal depends on that journal alone.** -/
theorem same_container? (h : Alike key f f') : Same key (f.container? key) (f'.container? key) := by
  unfold container?
  rw [h.registered, h.live?, h.resolver]
  split
  · exact ⟨h, rfl⟩
  · cases hl : f.store.live? key with
    | some c => exact ⟨h, rfl⟩
    | none =>
      cases f.resolver.enabledConfig? key.ns with
      | none => exact ⟨h, rfl⟩
      | some config =>
        simp only
        cases config.split f.resolver.partitions with
        | error e => exact ⟨h, rfl⟩
        | ok storage =>
          simp only [Store.provide, h.live?, hl]
          cases Container.create key storage with
          | error e => exact ⟨h, rfl⟩
          | ok c =>
            exact ⟨⟨rfl, rfl, (alike_beginWith h c).journal, h.line, h.jobs, h.waiters⟩, rfl⟩

theorem same_container (h : Alike key f f') : Same key (f.container key) (f'.container key) := by
  obtain ⟨f₁, f₁', a, hp, hp', h₁⟩ := (same_container? h).parts
  simp only [container, hp, hp']
  rcases a with e | (_ | c) <;> exact ⟨h₁, rfl⟩

theorem same_query (h : Alike key f f') (ask : Container EventRecord → Except JournalError γ) :
    Same key (f.query key ask) (f'.query key ask) := by
  obtain ⟨f₁, f₁', a, hp, hp', h₁⟩ := (same_container h).parts
  simp only [query, hp, hp']
  rcases a with e | c <;> exact ⟨h₁, rfl⟩

theorem same_subscribe (h : Alike key f f') : Same key (f.subscribe key) (f'.subscribe key) := by
  rw [subscribe_eq, subscribe_eq]
  exact same_query h _

theorem alike_put (h : Alike key f f') {c : Container EventRecord} (hc : c.key = key) :
    Alike key { f with store := f.store.put c } { f' with store := f'.store.put c } := by
  refine ⟨h.resolver, h.registered, ?_, h.line, h.jobs, h.waiters⟩
  show (f'.store.put c).journal key = (f.store.put c).journal key
  rw [Store.journal_put hc, Store.journal_put hc, h.journal]

theorem alike_wake (h : Alike key f f') :
    Alike key { f with waits := f.waits.wake key } { f' with waits := f'.waits.wake key } :=
  ⟨h.resolver, h.registered, h.journal, h.line.wake, h.jobs, h.waiters⟩

theorem alike_cancel (h : Alike key f f') :
    Alike key { f with waits := f.waits.cancel key } { f' with waits := f'.waits.cancel key } :=
  ⟨h.resolver, h.registered, h.journal, h.line.cancel, h.jobs, h.waiters⟩

/-- how many records were written to all journals together is not seen from one of them -/
theorem alike_written (h : Alike key f f') (written written' : Table EventKind ℕ) :
    Alike key { f with written } { f' with written := written' } :=
  ⟨h.resolver, h.registered, h.journal, h.line, h.jobs, h.waiters⟩

/-- **A write to a journal depends on that journal alone**, and wakes its readers alone. -/
theorem same_write (encode : ω → Except WireError Data) (hkeyed : f.store.Keyed) (h : Alike key f f') (now : ℕ)
    (change : Change ω ω) : Same key (f.write encode key now change) (f'.write encode key now change) := by
  obtain ⟨f₁, f₁', a, hp, hp', h₁⟩ := (same_container? h).parts
  simp only [write, hp, hp']
  rcases a with e | (_ | c)
  · exact ⟨h₁, rfl⟩
  · exact ⟨h₁, rfl⟩
  · have hc : c.key = key := key_of_container? hkeyed hp
    cases change.encode encode encode with
    | error e => exact ⟨h₁, rfl⟩
    | ok a =>
      refine ⟨?_, rfl⟩
      simp only [hc]
      have hput := alike_put h₁ ((Container.key_append c a now).trans hc)
      exact alike_written (alike_wake hput) _ _

theorem same_cleanup (hkeyed : f.store.Keyed) (h : Alike key f f') (now : ℕ) :
    Same key (f.cleanup key now) (f'.cleanup key now) := by
  obtain ⟨f₁, f₁', a, hp, hp', h₁⟩ := (same_container? h).parts
  simp only [cleanup, container, hp, hp']
  rcases a with e | (_ | c)
  · exact ⟨h₁, rfl⟩
  · exact ⟨h₁, rfl⟩
  · exact ⟨alike_put h₁ ((Container.key_cleanup c now).trans (key_of_container? hkeyed hp)), rfl⟩

theorem alike_destroy (h : Alike key f f') : Alike key (f.destroy key) (f'.destroy key) := by
  unfold destroy
  rw [h.registered]
  split
  · exact h
  · refine ⟨h.resolver, rfl, ?_, h.line.cancel, h.jobs, h.waiters⟩
    show (f'.store.discard key).1.journal key = (f.store.discard key).1.journal key
    rw [Store.journal_discard, Store.journal_discard, h.journal]

theorem same_onHandle (h : Alike key f f') {handle : Handle} (hk : handle.key = key)
    (act : Container EventRecord → Container EventRecord × Except JournalError (Answer β)) :
    Same key (f.onHandle handle act) (f'.onHandle handle act) := by
  unfold onHandle
  rw [h.get? hk]
  cases f.store.get? handle with
  | none => exact ⟨h, rfl⟩
  | some c => exact ⟨⟨h.resolver, h.registered, Store.journal_modify h.journal hk _, h.line, h.jobs, h.waiters⟩, rfl⟩

theorem found_eq (h : Alike key f f') : f'.found key = f.found key := by
  rw [found, found, h.handle?, h.live?]

/-! ## Readers -/

/-- **The turns of a reader depend on its journal alone.** -/
theorem same_turns {w : Waiter} (hw : w.key = key) (n : ℕ) (h : Alike key f f') (s : Int) (b : Batch EventRecord β) :
    Same key (turns w n f s b) (turns w n f' s b) := by
  subst hw
  have hwaits : ∀ {f f' : Feed β}, Alike w.key f f' → f'.waits.isCancelled w = f.waits.isCancelled w ∧
      f'.waits.watch w = f.waits.watch w := fun h => ⟨h.line.isCancelled, h.line.watch⟩
  obtain ⟨hfeed, hanswer⟩ :=
    turns_congr hwaits (fun ask h => ⟨(same_query h ask).feed, (same_query h ask).answer⟩) n h s b
  exact ⟨hfeed, hanswer⟩

theorem alike_set (h : Alike key f f') (id : String) (job : Job β) :
    Alike key { f with jobs := f.jobs.set id job } { f' with jobs := f'.jobs.set id job } :=
  ⟨h.resolver, h.registered, h.journal, h.line, h.jobs.set id job, h.waiters⟩

theorem alike_erase (h : Alike key f f') (id : String) :
    Alike key { f with jobs := f.jobs.erase id } { f' with jobs := f'.jobs.erase id } :=
  ⟨h.resolver, h.registered, h.journal, h.line, h.jobs.erase id, h.waiters⟩

theorem alike_release (h : Alike key f f') {w : Waiter} (hw : w.key = key) :
    Alike key { f with waits := f.waits.release w } { f' with waits := f'.waits.release w } := by
  subst hw
  exact ⟨h.resolver, h.registered, h.journal, h.line.release, h.jobs, h.waiters⟩

theorem alike_register (h : Alike key f f') :
    Alike key { f with waits := (f.waits.register key).1 } { f' with waits := (f'.waits.register key).1 } :=
  ⟨h.resolver, h.registered, h.journal, h.line.register.2, h.jobs, h.waiters⟩

theorem same_advance (h : Alike key f f') (id : String) {w : Waiter} (hw : w.key = key) (r : Reader β) :
    Same key (f.advance id w r) (f'.advance id w r) := by
  obtain ⟨f₁, f₁', t, hp, hp', h₁⟩ := (same_turns hw 2 h r.position r.batch).parts
  simp only [advance, hp, hp']
  cases t with
  | finished result => exact ⟨alike_release (alike_erase h₁ id) hw, rfl⟩
  | parked watch position b => exact ⟨alike_set h₁ id _, rfl⟩
  | again position b =>
    have hline : WaitRegistry.SameLine f₁.waits f₁'.waits w.key := hw ▸ h₁.line
    simp only [hline.watch]
    exact ⟨alike_set h₁ id _, rfl⟩

theorem same_pollReader (h : Alike key f f') (id : String) {r : Reader β} (hr : r.key = key)
    (hparked : ∀ watch, r.parked = some watch → watch.waiter.key = r.key) :
    Same key (f.pollReader id r) (f'.pollReader id r) := by
  unfold pollReader
  cases hp : r.parked with
  | some watch =>
    have hwatch : watch.waiter.key = key := (hparked watch hp).trans hr
    have hline : WaitRegistry.SameLine f.waits f'.waits watch.waiter.key := hwatch ▸ h.line
    simp only [hline.ready]
    split
    · exact same_advance h id hwatch r
    · exact ⟨h, rfl⟩
  | none =>
    obtain ⟨hwaiter, -⟩ := h.line.register
    simp only [hr, hwaiter]
    exact same_advance (alike_register h) id rfl r

/-- **A poll of a reader depends on its journal alone.** -/
theorem same_poll (h : Alike key f f') (ho : f.Orderly) {id : String} {job : Job β} (hjob : f.jobs.get? id = some job)
    (hk : job.key = key) : Same key (f.poll id) (f'.poll id) := by
  have hjob' : f'.jobs.get? id = some job := (h.jobs id job hk).2 hjob
  unfold poll
  rw [hjob, hjob']
  cases job with
  | reader r =>
    have hsame := same_pollReader h id hk fun watch hp => ho.parked id r watch hjob hp
    exact ⟨hsame.feed, congrArg some hsame.answer⟩
  | watch owner watch polled =>
    have hline : WaitRegistry.SameLine f.waits f'.waits watch.waiter.key := by
      rw [show watch.waiter.key = key from hk]
      exact h.line
    simp only [hline.ready]
    split
    · exact ⟨alike_erase h id, rfl⟩
    · exact ⟨alike_set h id _, rfl⟩

/-! ## Readers and waiters that come and go -/

theorem same_drop_of (h : Alike key f f') (ho : f.Orderly) {id : String} {job : Job β}
    (hjob : f.jobs.get? id = some job) (hk : job.key = key) : Same key (f.drop id) (f'.drop id) := by
  have hjob' : f'.jobs.get? id = some job := (h.jobs id job hk).2 hjob
  unfold drop
  rw [hjob, hjob']
  cases job with
  | reader r =>
    cases hp : r.parked with
    | none =>
      simp only [hp]
      exact ⟨alike_erase h id, rfl⟩
    | some watch =>
      simp only [hp]
      exact ⟨alike_release (alike_erase h id) ((ho.parked id r watch hjob hp).trans hk), rfl⟩
  | watch owner watch polled => exact ⟨alike_erase h id, rfl⟩

theorem same_dropWaiter_of (h : Alike key f f') {name : String} {w : Waiter} (hwaiter : f.waiters.get? name = some w)
    (hk : w.key = key) : Same key (f.dropWaiter name) (f'.dropWaiter name) := by
  have hwaiter' : f'.waiters.get? name = some w := (h.waiters name w hk).2 hwaiter
  have horphans : ∀ id job, job.key = key → f.jobs.get? id = some job →
      (id ∈ f'.orphans name ↔ id ∈ f.orphans name) := by
    intro id job hkey hjob
    have hjob' := (h.jobs id job hkey).2 hjob
    rw [mem_orphans, mem_orphans, hjob, hjob']
  have hjobs : Table.Agree (fun job => job.key = key) ((f.orphans name).foldl Table.erase f.jobs)
      ((f'.orphans name).foldl Table.erase f'.jobs) := by
    intro id job hkey
    rw [Table.get?_foldl_erase, Table.get?_foldl_erase]
    constructor
    · intro hjob'
      split at hjob'
      · cases hjob'
      · next hno =>
        have hjob := (h.jobs id job hkey).1 hjob'
        rw [if_neg fun hin => hno ((horphans id job hkey hjob).2 hin)]
        exact hjob
    · intro hjob
      split at hjob
      · cases hjob
      · next hno =>
        rw [if_neg fun hin => hno ((horphans id job hkey hjob).1 hin)]
        exact (h.jobs id job hkey).2 hjob
  have hrelease := alike_release h hk
  unfold dropWaiter
  rw [hwaiter, hwaiter']
  exact ⟨⟨h.resolver, h.registered, h.journal, hrelease.line, hjobs, h.waiters.erase name⟩, rfl⟩

/-- a consumer of another journal goes unnoticed -/
theorem alike_drop_of_ne (ho : f.Orderly) {id : String} (hid : ∀ job, f.jobs.get? id = some job → job.key ≠ key) :
    Alike key f (f.drop id).1 := by
  cases hjob : f.jobs.get? id with
  | none =>
    have hdrop : f.drop id = (f, false) := by simp only [drop, hjob]
    rw [hdrop]
    exact .refl key f
  | some job =>
    have hjobs : Table.Agree (fun job => job.key = key) f.jobs (f.jobs.erase id) := Table.agree_erase hid
    unfold drop
    rw [hjob]
    cases job with
    | reader r =>
      cases hp : r.parked with
      | none =>
        simp only [hp]
        exact ⟨rfl, rfl, rfl, .refl _ _, hjobs, .refl _⟩
      | some watch =>
        have hne : key ≠ watch.waiter.key := by
          rw [ho.parked id r watch hjob hp]
          exact (hid _ hjob).symm
        simp only [hp]
        exact ⟨rfl, rfl, rfl, ⟨WaitRegistry.line_set_of_ne _ hne _⟩, hjobs, .refl _⟩
    | watch owner watch polled => exact ⟨rfl, rfl, rfl, .refl _ _, hjobs, .refl _⟩

/-- so does a named waiter of another journal, with the jobs that watch for it -/
theorem alike_dropWaiter_of_ne (ho : f.Orderly) {name : String} (hname : ∀ w, f.waiters.get? name = some w → w.key ≠ key) :
    Alike key f (f.dropWaiter name).1 := by
  cases hwaiter : f.waiters.get? name with
  | none =>
    have hdrop : f.dropWaiter name = (f, false) := by simp only [dropWaiter, hwaiter]
    rw [hdrop]
    exact .refl key f
  | some w =>
    have hne : key ≠ w.key := (hname w hwaiter).symm
    have hjobs : Table.Agree (fun job => job.key = key) f.jobs ((f.orphans name).foldl Table.erase f.jobs) := by
      intro id job hkey
      rw [Table.get?_foldl_erase]
      split
      · next hid =>
        -- an orphan waits under the key of the waiter that it lost
        obtain ⟨watch, polled, hjob⟩ := mem_orphans.1 hid
        have howner := ho.owned id name watch polled hjob
        rw [hwaiter] at howner
        cases howner
        rw [hjob]
        constructor
        · intro h
          cases h
        · intro h
          cases h
          exact absurd hkey.symm hne
      · exact Iff.rfl
    have hline : WaitRegistry.SameLine f.waits (f.waits.release w) key := ⟨WaitRegistry.line_set_of_ne _ hne _⟩
    unfold dropWaiter
    rw [hwaiter]
    exact ⟨rfl, rfl, rfl, hline, hjobs, Table.agree_erase hname⟩

/-- **Ending a job depends on its journal alone**, and is not noticed from any other. -/
theorem alike_drop (h : Alike key f f') (ho : f.Orderly) (ho' : f'.Orderly) (id : String) :
    Alike key (f.drop id).1 (f'.drop id).1 := by
  by_cases hon : ∃ job, f.jobs.get? id = some job ∧ job.key = key
  · obtain ⟨job, hjob, hk⟩ := hon
    exact (same_drop_of h ho hjob hk).feed
  · have hoff : ∀ job, f.jobs.get? id = some job → job.key ≠ key := fun job hjob hk => hon ⟨job, hjob, hk⟩
    have hoff' : ∀ job, f'.jobs.get? id = some job → job.key ≠ key :=
      fun job hjob hk => hon ⟨job, (h.jobs id job hk).1 hjob, hk⟩
    exact (alike_drop_of_ne ho hoff).symm.trans (h.trans (alike_drop_of_ne ho' hoff'))

theorem alike_dropWaiter (h : Alike key f f') (ho : f.Orderly) (ho' : f'.Orderly) (name : String) :
    Alike key (f.dropWaiter name).1 (f'.dropWaiter name).1 := by
  by_cases hon : ∃ w, f.waiters.get? name = some w ∧ w.key = key
  · obtain ⟨w, hw, hk⟩ := hon
    exact (same_dropWaiter_of h hw hk).feed
  · have hoff : ∀ w, f.waiters.get? name = some w → w.key ≠ key := fun w hw hk => hon ⟨w, hw, hk⟩
    have hoff' : ∀ w, f'.waiters.get? name = some w → w.key ≠ key :=
      fun w hw hk => hon ⟨w, (h.waiters name w hk).1 hw, hk⟩
    exact (alike_dropWaiter_of_ne ho hoff).symm.trans (h.trans (alike_dropWaiter_of_ne ho' hoff'))

theorem same_addWaiter (h : Alike key f f') (ho : f.Orderly) (ho' : f'.Orderly) (name : String) :
    Same key (f.addWaiter name key) (f'.addWaiter name key) := by
  have hdrop := alike_dropWaiter h ho ho' name
  obtain ⟨hwaiter, hline⟩ := hdrop.line.register
  simp only [addWaiter, hwaiter]
  exact ⟨⟨hdrop.resolver, hdrop.registered, hdrop.journal, hline, hdrop.jobs, hdrop.waiters.set name _⟩, rfl⟩

theorem same_startWatch (h : Alike key f f') (ho : f.Orderly) (ho' : f'.Orderly) (id : String) {name : String}
    {w : Waiter} (hwaiter : f.waiters.get? name = some w) (hk : w.key = key) :
    Same key (f.startWatch id name) (f'.startWatch id name) := by
  have hwaiter' : f'.waiters.get? name = some w := (h.waiters name w hk).2 hwaiter
  have hdrop := alike_drop h ho ho' id
  have hline : WaitRegistry.SameLine (f.drop id).1.waits (f'.drop id).1.waits w.key := hk ▸ hdrop.line
  unfold startWatch
  rw [hwaiter, hwaiter']
  simp only [hline.watch]
  exact ⟨alike_set hdrop id _, rfl⟩

/-! ## Every operation -/

theorem alike_resolver (h : Alike key f f') (resolver : Resolver) :
    Alike key { f with resolver } { f' with resolver } :=
  ⟨rfl, h.registered, h.journal, h.line, h.jobs, h.waiters⟩

theorem same_provide (h : Alike key f f') (encode : ω → Except WireError Data) (config : StorageConfig) :
    Same key (f.step encode (.provide key config)) (f'.step encode (.provide key config)) := by
  simp only [step, Store.provide, h.live?]
  cases f.store.live? key with
  | some c => exact ⟨h, congrArg Except.ok (found_eq h)⟩
  | none =>
    cases Container.create key config with
    | error e => exact ⟨h, rfl⟩
    | ok c =>
      have hbegun := alike_beginWith h c
      exact ⟨hbegun, congrArg Except.ok (found_eq hbegun)⟩

/-- **An operation that concerns a journal depends on that journal alone**: in feeds that look alike from it, it gives the
same answer, and leaves feeds that look alike. -/
theorem same_step (encode : ω → Except WireError Data) (h : Alike key f f') (ho : f.Orderly) (ho' : f'.Orderly)
    {op : Op ω β} (hop : op.concerns f key = true) : Same key (f.step encode op) (f'.step encode op) := by
  have hown : ∀ {k : JournalKey}, decide (some k = some key) = true → k = key := by
    intro k hk
    exact Option.some.inj (of_decide_eq_true hk)
  have hjobs : ∀ {id : String}, decide ((f.jobs.get? id).map Job.key = some key) = true →
      ∃ job, f.jobs.get? id = some job ∧ job.key = key := fun hid => Option.map_eq_some_iff.1 (of_decide_eq_true hid)
  have hwaiters : ∀ {name : String}, decide ((f.waiters.get? name).map Waiter.key = some key) = true →
      ∃ w, f.waiters.get? name = some w ∧ w.key = key := fun hname => Option.map_eq_some_iff.1 (of_decide_eq_true hname)
  cases op with
  | write k now change =>
    obtain rfl := hown hop
    exact same_of_answer (same_write encode ho.keyed h now change) _
  | newest k =>
    obtain rfl := hown hop
    exact same_of_answer (same_query h _) _
  | oldest k =>
    obtain rfl := hown hop
    exact same_of_answer (same_query h _) _
  | subscribe k =>
    obtain rfl := hown hop
    exact same_of_answer (same_subscribe h) _
  | checkPosition k s =>
    obtain rfl := hown hop
    exact same_of_answer (same_query h _) _
  | shouldWait k s =>
    obtain rfl := hown hop
    exact same_of_answer (same_query h _) _
  | readMany k s b =>
    obtain rfl := hown hop
    exact same_of_answer (same_query h _) _
  | cleanup k now =>
    obtain rfl := hown hop
    exact same_of_answer (same_cleanup ho.keyed h now) _
  | destroy k =>
    obtain rfl := hown hop
    exact ⟨alike_destroy h, rfl⟩
  | waitKey k => exact ⟨h, rfl⟩
  | hasJournal ns => exact ⟨h, by simp only [step, h.resolver]⟩
  | journalConfig ns => exact ⟨h, by simp only [step, h.resolver]⟩
  | storageConfig config =>
    simp only [step, h.resolver]
    cases config.split f.resolver.partitions <;> exact ⟨h, rfl⟩
  | partitionCount => exact ⟨h, by simp only [step, h.resolver]⟩
  | startReader id k s b =>
    obtain rfl := hown hop
    exact ⟨alike_set (alike_drop h ho ho' id) id _, rfl⟩
  | poll id =>
    obtain ⟨job, hjob, hk⟩ := hjobs hop
    obtain ⟨f₁, f₁', p, hp, hp', h₁⟩ := (same_poll h ho hjob hk).parts
    simp only [step, hp, hp']
    cases p <;> exact ⟨h₁, rfl⟩
  | drop id =>
    obtain ⟨job, hjob, hk⟩ := hjobs hop
    obtain ⟨f₁, f₁', a, hp, hp', h₁⟩ := (same_drop_of h ho hjob hk).parts
    simp only [step, hp, hp']
    exact ⟨h₁, rfl⟩
  | addWaiter name k =>
    obtain rfl := hown hop
    obtain ⟨f₁, f₁', w, hp, hp', h₁⟩ := (same_addWaiter h ho ho' name).parts
    have hw : w.key = k := by
      rw [← congrArg (fun p => p.2.key) hp]
      rfl
    have hline : WaitRegistry.SameLine f₁.waits f₁'.waits w.key := hw ▸ h₁.line
    simp only [step, hp, hp', hline.isCancelled]
    exact ⟨h₁, rfl⟩
  | startWatch id name =>
    obtain ⟨w, hwaiter, hk⟩ := hwaiters hop
    obtain ⟨f₁, f₁', a, hp, hp', h₁⟩ := (same_startWatch h ho ho' id hwaiter hk).parts
    simp only [step, hp, hp']
    cases a <;> exact ⟨h₁, rfl⟩
  | waiterCancelled name =>
    obtain ⟨w, hwaiter, hk⟩ := hwaiters hop
    have hline : WaitRegistry.SameLine f.waits f'.waits w.key := hk ▸ h.line
    simp only [step, waiterCancelled?, hwaiter, (h.waiters name w hk).2 hwaiter, Option.map_some, hline.isCancelled]
    exact ⟨h, rfl⟩
  | dropWaiter name =>
    obtain ⟨w, hwaiter, hk⟩ := hwaiters hop
    obtain ⟨f₁, f₁', a, hp, hp', h₁⟩ := (same_dropWaiter_of h hwaiter hk).parts
    simp only [step, hp, hp']
    exact ⟨h₁, rfl⟩
  | wake k =>
    obtain rfl := hown hop
    exact ⟨alike_wake h, rfl⟩
  | wakeContainer handle =>
    obtain rfl := hown hop
    simp only [step, h.get? rfl]
    cases hc : f.store.get? handle with
    | none => exact ⟨h, rfl⟩
    | some c =>
      have hk : c.key = handle.key := ho.keyed handle.key handle.generation c hc
      simp only [hk]
      exact ⟨alike_wake h, rfl⟩
  | cancel k =>
    obtain rfl := hown hop
    exact ⟨alike_cancel h, rfl⟩
  | setRegistry registry =>
    simp only [step, h.resolver]
    exact ⟨alike_resolver h _, rfl⟩
  | setVersion version =>
    simp only [step, h.resolver]
    exact ⟨alike_resolver h _, rfl⟩
  | setPartitions partitions =>
    simp only [step, h.resolver]
    exact ⟨alike_resolver h _, rfl⟩
  | registerStore =>
    simp only [step, h.registered]
    exact ⟨⟨h.resolver, rfl, h.journal, h.line, h.jobs, h.waiters⟩, rfl⟩
  | storeService =>
    simp only [step, h.registered]
    exact ⟨h, rfl⟩
  | find k =>
    obtain rfl := hown hop
    exact ⟨h, congrArg Except.ok (found_eq h)⟩
  | provide k config =>
    obtain rfl := hown hop
    exact same_provide h encode config
  | discard k =>
    obtain rfl := hown hop
    simp only [step, Store.discard_eq h.journal]
    refine ⟨⟨h.resolver, h.registered, ?_, h.line, h.jobs, h.waiters⟩, rfl⟩
    simp only [Store.journal_discard, h.journal]
  | inPartition part => cases hop
  | inspect handle =>
    simp only [step]
    exact same_onHandle h (hown hop) _
  | append handle record now =>
    simp only [step]
    exact same_onHandle h (hown hop) _
  | readOne handle s =>
    simp only [step]
    exact same_onHandle h (hown hop) _
  | checkIn handle s =>
    simp only [step]
    exact same_onHandle h (hown hop) _
  | shouldWaitIn handle s =>
    simp only [step]
    exact same_onHandle h (hown hop) _
  | cleanupIn handle now =>
    simp only [step]
    exact same_onHandle h (hown hop) _

end Locality

end Feed

end Changefeed
