/-
The history of a journal, told by the operations alone. The records of a journal are those appended to it since it was
last torn down (`recorded`); whether an operation appends to a journal or tears it down is read off the operation and
the feed before it, without a look at any ring.

What an operation does to the containers of a key is one of five things (`Fate`): it leaves them as they are, uses the
live one, creates one and uses it, uses a closed one through a handle, or closes the live one.

Results:
- `write_written`: what a write leaves;
- `step_leaves`: what an operation leaves of the store, told for the whole store;
- `step_fate`: every operation does one of these things to every journal;
- `keyed_step`: a container bears the key that it was created under, for good;
- `history_step`: a live container was given exactly the recorded records, and a journal without a container has none.
-/
import Changefeed.Proofs.Polls

namespace Changefeed

variable {ω β : Type}

namespace Feed

/-- the journal of a key is there, or is created by an operation that needs it -/
def provides (f : Feed β) (key : JournalKey) : Bool :=
  match (f.container? key).2 with
  | .ok (some _) => true
  | _ => false

end Feed

/-- the record that an operation appends to the journal of a key -/
def Op.appended? (encode : ω → Except WireError Data) (f : Feed β) (key : JournalKey) : Op ω β → Option EventRecord
  | .write k _ change => if k = key ∧ f.provides k = true then (change.encode encode encode).toOption else none
  | .append h record _ => if f.store.handle? key = some h then some record else none
  | _ => none

/-- the journal that an operation is about -/
def Op.journal? : Op ω β → Option JournalKey
  | .write key .. => some key
  | .newest key => some key
  | .oldest key => some key
  | .subscribe key => some key
  | .checkPosition key _ => some key
  | .shouldWait key _ => some key
  | .readMany key .. => some key
  | .cleanup key _ => some key
  | .destroy key => some key
  | .waitKey key => some key
  | .wake key => some key
  | .wakeContainer h => some h.key
  | .cancel key => some key
  | .find key => some key
  | .provide key _ => some key
  | .discard key => some key
  | .inspect h => some h.key
  | .append h .. => some h.key
  | .readOne h _ => some h.key
  | .checkIn h _ => some h.key
  | .shouldWaitIn h _ => some h.key
  | .cleanupIn h _ => some h.key
  | _ => none

/-- the operation uses the container with a handle, and can change it -/
def Op.alters (handle : Handle) : Op ω β → Bool
  | .append h .. => h = handle
  | .cleanupIn h _ => h = handle
  | _ => false

/-- the operation leaves a key without a journal -/
def Op.tearsDown (f : Feed β) (key : JournalKey) : Op ω β → Bool
  | .destroy k => k = key ∧ f.registered = true
  | .discard k => k = key
  | _ => false

/-- the records of a journal after one more operation -/
def Op.record (encode : ω → Except WireError Data) (f : Feed β) (key : JournalKey) (past : List EventRecord)
    (op : Op ω β) : List EventRecord :=
  if op.tearsDown f key then [] else past ++ (op.appended? encode f key).toList

namespace Feed

/-- the records of a journal after a run -/
def recorded (encode : ω → Except WireError Data) (key : JournalKey) :
    Feed β → List EventRecord → List (Op ω β) → List EventRecord
  | _, past, [] => past
  | f, past, op :: ops => recorded encode key (f.step encode op).1 (op.record encode f key past) ops

theorem recorded_append (encode : ω → Except WireError Data) (key : JournalKey) (f : Feed β) (past : List EventRecord)
    (ops ops' : List (Op ω β)) :
    recorded encode key f past (ops ++ ops') =
      recorded encode key (f.run encode ops).1 (recorded encode key f past ops) ops' := by
  induction ops generalizing f past with
  | nil => rfl
  | cons op ops ih => exact ih _ _

/-! ## Writes -/

theorem provides_of_found {f f' : Feed β} {key : JournalKey} {c : Container EventRecord}
    (h : f.container? key = (f', .ok (some c))) : f.provides key = true := by
  simp only [provides, h]

theorem found_of_provides {f : Feed β} {key : JournalKey} (h : f.provides key = true) :
    ∃ f' c, f.container? key = (f', .ok (some c)) := by
  unfold provides at h
  rcases hlook : f.container? key with ⟨f', e | (_ | c)⟩
  · rw [hlook] at h
    cases h
  · rw [hlook] at h
    cases h
  · exact ⟨f', c, rfl⟩

theorem not_provides {f : Feed β} {key : JournalKey} (h : ∀ f' c, f.container? key ≠ (f', .ok (some c))) :
    f.provides key = false := by
  unfold provides
  split
  · next c hc => exact absurd (Prod.ext rfl hc : f.container? key = ((f.container? key).1, .ok (some c))) (h _ c)
  · rfl

/-- what a write leaves: what the look left, or that with a record more, for which the readers are woken -/
inductive Written (encode : ω → Except WireError Data) (f : Feed β) (k : JournalKey) (now : ℕ) (change : Change ω ω) :
    Feed β → Prop
  | nothing (hno : ∀ key, (Op.write (β := β) k now change).appended? encode f key = none) :
      Written encode f k now change (f.container? k).1
  | record {f' : Feed β} {c : Container EventRecord} (a : EventRecord) (hp : f.container? k = (f', .ok (some c)))
      (ha : ∀ key, (Op.write (β := β) k now change).appended? encode f key = if k = key then some a else none) :
      Written encode f k now change { f' with
        store := f'.store.put (c.append a now).1
        written := f'.written.set a.kind (f'.writtenOf a.kind + 1)
        waits := f'.waits.wake c.key }

theorem write_written (encode : ω → Except WireError Data) (f : Feed β) (k : JournalKey) (now : ℕ)
    (change : Change ω ω) : Written encode f k now change (f.write encode k now change).1 := by
  unfold write
  cases hp : f.container? k with
  | mk f' found =>
    obtain rfl : (f.container? k).1 = f' := congrArg Prod.fst hp
    have hmissing : (∀ c, found ≠ .ok (some c)) → Written encode f k now change (f.container? k).1 := by
      intro hfound
      have hno : f.provides k = false := not_provides fun f' c h => hfound c (congrArg Prod.snd (hp.symm.trans h))
      exact .nothing fun key => by simp [Op.appended?, hno]
    rcases found with e | (_ | c)
    · exact hmissing fun c h => by cases h
    · exact hmissing fun c h => by cases h
    · cases he : change.encode encode encode with
      | error e => exact .nothing fun key => by simp [Op.appended?, he, Except.toOption]
      | ok a =>
        refine .record a hp fun key => ?_
        by_cases h : k = key
        · subst h
          simp [Op.appended?, provides_of_found hp, he, Except.toOption]
        · simp [Op.appended?, h]

/-! ## What becomes of the containers of a key -/

/-- what one use makes of a container, and what it appends -/
inductive Used (c : Container EventRecord) : Option EventRecord → Container EventRecord → Prop
  | seen : Used c none c
  | cleaned (now : ℕ) : Used c none (c.cleanup now).1
  | grown (a : EventRecord) (now : ℕ) : Used c (some a) (c.append a now).1

theorem Used.key {c c' : Container EventRecord} {a : Option EventRecord} (h : Used c a c') : c'.key = c.key := by
  cases h <;> simp

theorem Used.records {c c' : Container EventRecord} {a : Option EventRecord} {past : List EventRecord}
    (h : Used c a c') (hc : c.Records past) : c'.Records (past ++ a.toList) := by
  cases h with
  | seen => simpa using hc
  | cleaned now => simpa using Container.records_cleanup hc now
  | grown a now => simpa using Container.records_append hc a now

/-- a use that appends nothing leaves the tail where it is -/
theorem Used.tail {c c' : Container EventRecord} (h : Used c none c') : c'.tail = c.tail := by
  cases h <;> simp

/-- what an operation makes of the containers of a key, what it appends to the live one, and whether it closes it -/
inductive Fate (key : JournalKey) (g : Generations (Container EventRecord)) :
    Option EventRecord → Bool → Generations (Container EventRecord) → Prop
  | kept : Fate key g none false g
  | used {c c' : Container EventRecord} {a : Option EventRecord} (hc : g.opened = some c) (hu : Used c a c') :
      Fate key g a false { g with opened := some c' }
  | begun {c c' : Container EventRecord} {a : Option EventRecord} (hn : g.opened = none) (hc : New key c)
      (hu : Used c a c') : Fate key g a false { g with opened := some c' }
  | behind {n : ℕ} {c c' : Container EventRecord} {a : Option EventRecord} (hn : n ≠ g.closed.length)
      (hc : g.get? n = some c) (hu : Used c a c') : Fate key g none false (g.modify n fun _ => c')
  | closed : Fate key g none true (g.close id)

section Fates

variable {key : JournalKey} {g g' : Generations (Container EventRecord)} {a : Option EventRecord} {torn : Bool}

theorem Fate.keyed (h : Fate key g a torn g') (hg : ∀ n c, g.get? n = some c → c.key = key) (n : ℕ)
    (c : Container EventRecord) (hc : g'.get? n = some c) : c.key = key := by
  have hopen : ∀ d, g.opened = some d → d.key = key := by
    intro d hd
    exact hg g.closed.length d (by rw [Generations.get?, if_pos rfl, hd])
  cases h with
  | kept => exact hg n c hc
  | used hd hu =>
    rw [Generations.get?_reopen] at hc
    split at hc
    · cases hc
      rw [hu.key]
      exact hopen _ hd
    · exact hg n c hc
  | begun _ hd hu =>
    rw [Generations.get?_reopen] at hc
    split at hc
    · cases hc
      rw [hu.key]
      exact hd.key
    · exact hg n c hc
  | behind _ hd hu =>
    rw [Generations.get?_modify, hd] at hc
    split at hc
    · cases hc
      rw [hu.key]
      exact hg _ _ hd
    · exact hg n c hc
  | closed =>
    rw [Generations.get?_close, Option.map_id, id] at hc
    split at hc
    · exact hopen c hc
    · exact hg n c hc

/-- a live container stays the one it is until it is closed -/
theorem Fate.live (h : Fate key g a false g') {c : Container EventRecord} (hc : g.opened = some c) :
    ∃ c', g'.opened = some c' ∧ Used c a c' ∧ g'.closed.length = g.closed.length := by
  cases h with
  | kept => exact ⟨c, hc, .seen, rfl⟩
  | used hd hu =>
    rw [hc] at hd
    cases hd
    exact ⟨_, rfl, hu, rfl⟩
  | begun hn => rw [hc] at hn; cases hn
  | behind hn _ _ =>
    exact ⟨c, (g.opened_modify_of_ne hn _).trans hc, .seen, g.length_modify _ _⟩

/-- the live container was given exactly these records; without one there are none -/
structure Holds (g : Generations (Container EventRecord)) (past : List EventRecord) : Prop where
  live : ∀ c, g.opened = some c → c.Records past
  absent : g.opened = none → past = []

theorem Fate.holds {past : List EventRecord} (h : Fate key g a torn g') (hg : Holds g past) :
    Holds g' (if torn then [] else past ++ a.toList) := by
  cases h with
  | kept => simpa using hg
  | used hd hu =>
    constructor
    · intro c hc
      cases hc
      exact hu.records (hg.live _ hd)
    · intro hc
      cases hc
  | begun hn hd hu =>
    constructor
    · intro c hc
      cases hc
      rw [hg.absent hn]
      exact hu.records hd.records
    · intro hc
      cases hc
  | behind hn _ _ =>
    have ho := g.opened_modify_of_ne hn
    constructor
    · intro c hc
      simpa using hg.live c ((ho _).symm.trans hc)
    · intro hc
      simpa using hg.absent ((ho _).symm.trans hc)
  | closed =>
    constructor
    · intro c hc
      cases hc
    · intro _
      rfl

end Fates

/-! ## Every operation -/

/-- What an operation leaves of the store, what it appends to the journal of a key, and whether it tears the journal down:
nothing has changed; a journal was looked for; what was found was used and put back; a container was used through a handle;
one was created directly; or one was torn down. -/
inductive Leaves (f : Feed β) (op : Op ω β) :
    (JournalKey → Option EventRecord) → (JournalKey → Bool) → Store EventRecord → Prop
  | same : Leaves f op (fun _ => none) (fun _ => false) f.store
  | looked (k : JournalKey) : Leaves f op (fun _ => none) (fun _ => false) (f.container? k).1.store
  | used {k : JournalKey} {f' : Feed β} {c c' : Container EventRecord} {a : Option EventRecord}
      (hop : op.journal? = some k) (hp : f.container? k = (f', .ok (some c))) (hu : Used c a c') :
      Leaves f op (fun key => if k = key then a else none) (fun _ => false) (f'.store.put c')
  | held {h : Handle} {c c' : Container EventRecord} {a : Option EventRecord} (hop : op.journal? = some h.key)
      (hc : f.store.get? h = some c) (hu : Used c a c') (halters : op.alters h = false → c' = c) :
      Leaves f op (fun key => if f.store.handle? key = some h then a else none) (fun _ => false)
        (f.store.modify h fun _ => c')
  | provided {k : JournalKey} {config : StorageConfig} {store : Store EventRecord} {c : Container EventRecord}
      (hop : op = .provide k config) (hp : f.store.provide k config = .ok (store, c)) :
      Leaves f op (fun _ => none) (fun _ => false) store
  | discarded {k : JournalKey} (hop : op.journal? = some k) :
      Leaves f op (fun _ => none) (fun key => decide (k = key)) (f.store.discard k).1

section Leaves

variable {f : Feed β} {op : Op ω β}

theorem leaves_query {γ : Type} (k : JournalKey) (ask : Container EventRecord → Except JournalError γ)
    (give : γ → Answer β) : Leaves f op (fun _ => none) (fun _ => false) (answer give (f.query k ask)).1.store := by
  rw [answer_fst, query_fst]
  exact .looked k

theorem leaves_aside {f' : Feed β} {id : String} (h : Aside f id f') :
    Leaves f op (fun _ => none) (fun _ => false) f'.store := by
  rcases h.store with h | ⟨k, h⟩
  · rw [h]
    exact .same
  · rw [h]
    exact .looked k

theorem leaves_of_eq {s : Store EventRecord} (h : s = f.store) : Leaves f op (fun _ => none) (fun _ => false) s := by
  rw [h]
  exact .same

theorem leaves_onHandle {h : Handle} {act : Container EventRecord → Container EventRecord × Except JournalError (Answer β)}
    {a : Option EventRecord} (hop : op.journal? = some h.key) (hu : ∀ c, Used c a (act c).1)
    (halters : op.alters h = false → ∀ c, (act c).1 = c) :
    Leaves f op (fun key => if f.store.handle? key = some h then a else none) (fun _ => false)
      (f.onHandle h act).1.store := by
  unfold onHandle
  cases hget : f.store.get? h with
  | none =>
    have hno : ∀ key, f.store.handle? key ≠ some h := by
      intro key heq
      obtain ⟨rfl, hopened, hn⟩ := Store.handle?_eq_some_iff.1 heq
      rw [← Store.get?_eq_live? hn, hget] at hopened
      cases hopened
    simp only [if_neg (hno _)]
    exact .same
  | some c => exact .held hop hget (hu c) fun hquiet => halters hquiet c

/-- a use through a handle that appends nothing -/
theorem leaves_quiet {h : Handle} {act : Container EventRecord → Container EventRecord × Except JournalError (Answer β)}
    (hop : op.journal? = some h.key) (hu : ∀ c, Used c none (act c).1)
    (halters : op.alters h = false → ∀ c, (act c).1 = c) :
    Leaves f op (fun _ => none) (fun _ => false) (f.onHandle h act).1.store := by
  have hleaves := leaves_onHandle (f := f) hop hu halters
  simpa only [ite_self] using hleaves

theorem leaves_write (encode : ω → Except WireError Data) (f : Feed β) (k : JournalKey) (now : ℕ) (change : Change ω ω) :
    Leaves f (Op.write k now change) (fun key => (Op.write (β := β) k now change).appended? encode f key) (fun _ => false)
      (f.write encode k now change).1.store := by
  have hwritten := write_written encode f k now change
  generalize (f.write encode k now change).1 = f' at hwritten
  cases hwritten with
  | nothing hno =>
    simp only [hno]
    exact .looked k
  | record a hp ha =>
    simp only [ha]
    exact .used rfl hp (.grown a now)

theorem leaves_cleanup {k : JournalKey} (hop : op.journal? = some k) (now : ℕ) :
    Leaves f op (fun _ => none) (fun _ => false) (f.cleanup k now).1.store := by
  rcases cleanup_cases f k now with h | ⟨f', c, hp, h⟩
  · rw [h]
    exact .looked k
  · rw [h]
    have hleaves : Leaves f op (fun key => if k = key then none else none) (fun _ => false)
        (f'.store.put (c.cleanup now).1) := .used hop hp (.cleaned now)
    simpa only [ite_self] using hleaves

end Leaves

/-- **Every operation leaves one of these stores**, with the records and the tearing down that the operation alone tells. -/
theorem step_leaves (encode : ω → Except WireError Data) (f : Feed β) (op : Op ω β) :
    Leaves f op (fun key => op.appended? encode f key) (fun key => op.tearsDown f key) (f.step encode op).1.store := by
  cases op with
  | write k now change =>
    simp only [step, answer_fst]
    exact leaves_write encode f k now change
  | newest k => exact leaves_query k _ _
  | oldest k => exact leaves_query k _ _
  | subscribe k =>
    simp only [step, answer_fst, subscribe_fst]
    exact .looked k
  | checkPosition k s => exact leaves_query k _ _
  | shouldWait k s => exact leaves_query k _ _
  | readMany k s b => exact leaves_query k _ _
  | cleanup k now =>
    simp only [step, answer_fst]
    exact leaves_cleanup rfl now
  | destroy k =>
    simp only [step, destroy, Op.tearsDown, Op.appended?]
    cases f.registered with
    | false =>
      simp only [if_true, Bool.false_eq_true, and_false, decide_false]
      exact .same
    | true =>
      simp only [Bool.true_eq_false, if_false, and_true]
      exact .discarded rfl
  | discard k => exact .discarded rfl
  | startReader id k s b => exact leaves_aside (step_aside encode f rfl)
  | poll id => exact leaves_aside (step_aside encode f rfl)
  | drop id => exact leaves_aside (step_aside encode f rfl)
  | startWatch id name => exact leaves_aside (step_aside encode f rfl)
  | addWaiter name k => exact leaves_of_eq (congrArg store (dropWaiter_frame f name) :)
  | dropWaiter name => exact leaves_of_eq (congrArg store (dropWaiter_frame f name) :)
  | storageConfig config =>
    simp only [step, answer_fst]
    exact .same
  | waiterCancelled name =>
    simp only [step]
    split <;> exact .same
  | wakeContainer h =>
    simp only [step]
    split <;> exact .same
  | provide k config =>
    simp only [step]
    split
    · exact .same
    · next store c h => exact .provided rfl h
  | inspect h => exact leaves_quiet rfl (fun c => .seen) fun _ _ => rfl
  | append h record now =>
    exact leaves_onHandle rfl (fun c => .grown record now) fun hquiet => absurd rfl (of_decide_eq_false hquiet)
  | readOne h s => exact leaves_quiet rfl (fun c => .seen) fun _ _ => rfl
  | checkIn h s => exact leaves_quiet rfl (fun c => .seen) fun _ _ => rfl
  | shouldWaitIn h s => exact leaves_quiet rfl (fun c => .seen) fun _ _ => rfl
  | cleanupIn h now =>
    exact leaves_quiet rfl (fun c => .cleaned now) fun hquiet => absurd rfl (of_decide_eq_false hquiet)
  | _ => exact .same

/-! ## The fate of each key -/

theorem fate_container? (f : Feed β) (k key : JournalKey) :
    Fate key (f.store.journal key) none false ((f.container? k).1.store.journal key) := by
  have h := container?_look f k
  generalize f.container? k = p at h
  cases h with
  | refused e => exact .kept
  | absent => exact .kept
  | found c _ _ => exact .kept
  | begun c hr hl hc =>
    by_cases hk : key = k
    · subst hk
      rw [journal_beginWith, Generations.push_of_none hl]
      exact .begun hl hc .seen
    · rw [journal_beginWith_of_ne f hk]
      exact .kept

/-- a use of the live container that is put back in its place -/
theorem fate_put {f : Feed β} {k : JournalKey} {c c' : Container EventRecord} {a : Option EventRecord}
    (hl : f.store.live? k = some c) (hk : c.key = k) (hu : Used c a c') (key : JournalKey) :
    Fate key (f.store.journal key) (if k = key then a else none) false ((f.store.put c').journal key) := by
  have hk' : c'.key = k := hu.key.trans hk
  by_cases h : key = k
  · subst h
    rw [Store.journal_put hk', if_pos rfl]
    exact .used hl hu
  · rw [Store.journal_put_of_ne (hk' ▸ h), if_neg (Ne.symm h)]
    exact .kept

/-- two fates in a row, the first of which appends nothing and is a look -/
theorem fate_container?_put {f : Feed β} (hkeyed : f.store.Keyed) {f' : Feed β} {k : JournalKey}
    {c c' : Container EventRecord} {a : Option EventRecord} (hl : f.container? k = (f', .ok (some c)))
    (hu : Used c a c') (key : JournalKey) :
    Fate key (f.store.journal key) (if k = key then a else none) false ((f'.store.put c').journal key) := by
  have hlook := container?_look f k
  rw [hl] at hlook
  cases hlook with
  | found _ hr hc => exact fate_put hc (hkeyed.live hc) hu key
  | begun _ hr hn hc =>
    have hk' : c'.key = k := hu.key.trans hc.key
    by_cases h : key = k
    · subst h
      rw [Store.journal_put hk', journal_beginWith, Generations.push_of_none hn, if_pos rfl]
      exact .begun hn hc hu
    · rw [Store.journal_put_of_ne (hk' ▸ h), journal_beginWith_of_ne f h, if_neg (Ne.symm h)]
      exact .kept

theorem fate_discard (f : Feed β) (k key : JournalKey) :
    Fate key (f.store.journal key) none (decide (k = key)) ((f.store.discard k).1.journal key) := by
  by_cases h : key = k
  · subst h
    rw [Store.journal_discard, decide_eq_true rfl]
    exact .closed
  · rw [Store.journal_discard_of_ne f.store h, decide_eq_false (Ne.symm h)]
    exact .kept

/-- a use through a handle appends to the journal of a key if the handle is that of its live container -/
theorem fate_modify {f : Feed β} {h : Handle} {c c' : Container EventRecord} {a : Option EventRecord}
    (hget : f.store.get? h = some c) (hu : Used c a c') (key : JournalKey) :
    Fate key (f.store.journal key) (if f.store.handle? key = some h then a else none) false
      ((f.store.modify h fun _ => c').journal key) := by
  by_cases hk : key = h.key
  · subst hk
    rw [Store.journal_modify_self]
    by_cases hn : h.generation = (f.store.journal h.key).closed.length
    · have hopen : (f.store.journal h.key).opened = some c := (Store.get?_eq_live? hn).symm.trans hget
      rw [if_pos (Store.handle?_of_get? hget hn), Generations.modify, if_pos hn, hopen]
      exact .used hopen hu
    · rw [if_neg fun heq => hn (Store.handle?_eq_some_iff.1 heq).2.2]
      exact .behind hn hget hu
  · rw [Store.journal_modify_of_ne _ _ hk, if_neg fun heq => hk (Store.handle?_eq_some_iff.1 heq).1.symm]
    exact .kept

theorem fate_provide {f : Feed β} {k : JournalKey} {config : StorageConfig} {store : Store EventRecord}
    {c : Container EventRecord} (h : f.store.provide k config = .ok (store, c)) (key : JournalKey) :
    Fate key (f.store.journal key) none false (store.journal key) := by
  rcases Store.provide_ok h with ⟨-, rfl⟩ | ⟨hn, hc, rfl⟩
  · exact .kept
  · by_cases hk : key = k
    · subst hk
      rw [Store.journal_opening, Generations.push_of_none hn]
      exact .begun hn (new_of_create hc) .seen
    · rw [Store.journal_opening_of_ne f.store hk]
      exact .kept

/-- **Every operation has one of the fates for every journal**, with the records and the tearing down that the operation
alone tells. -/
theorem step_fate (encode : ω → Except WireError Data) {f : Feed β} (hkeyed : f.store.Keyed) (op : Op ω β)
    (key : JournalKey) :
    Fate key (f.store.journal key) (op.appended? encode f key) (op.tearsDown f key)
      ((f.step encode op).1.store.journal key) := by
  have hfate : ∀ {a torn s}, Leaves f op a torn s → Fate key (f.store.journal key) (a key) (torn key) (s.journal key) := by
    intro a torn s h
    cases h with
    | same => exact .kept
    | looked k => exact fate_container? f k key
    | used _ hp hu => exact fate_container?_put hkeyed hp hu key
    | held _ hc hu _ => exact fate_modify hc hu key
    | provided _ hp => exact fate_provide hp key
    | discarded _ => exact fate_discard f _ key
  exact hfate (step_leaves encode f op)

/-- a container bears the key that it was created under, for good -/
theorem keyed_step (encode : ω → Except WireError Data) {f : Feed β} (h : f.store.Keyed) (op : Op ω β) :
    (f.step encode op).1.store.Keyed := by
  intro key n c hc
  exact (step_fate encode h op key).keyed (h key) n c hc

/-- each journal of the feed holds exactly these records -/
def History (f : Feed β) (past : JournalKey → List EventRecord) : Prop :=
  ∀ key, Holds (f.store.journal key) (past key)

theorem History.live {f : Feed β} {past : JournalKey → List EventRecord} (h : f.History past) {key : JournalKey}
    {c : Container EventRecord} (hc : f.store.live? key = some c) : c.Records (past key) := (h key).live c hc

theorem history_init (resolver : Resolver) (registered : Bool) :
    (init resolver registered : Feed β).History fun _ => [] := by
  intro key
  constructor
  · intro c hc
    cases hc
  · intro _
    rfl

/-- **The store holds the history.** A live container was given exactly the records that the operations appended since
the journal was last torn down, under consecutive sequences from zero on. -/
theorem history_step (encode : ω → Except WireError Data) {f : Feed β} {past : JournalKey → List EventRecord}
    (hkeyed : f.store.Keyed) (h : f.History past) (op : Op ω β) :
    (f.step encode op).1.History fun key => op.record encode f key (past key) :=
  fun key => (step_fate encode hkeyed op key).holds (h key)

end Feed

end Changefeed
