/-
Writes that record nothing. A write is ignored where there is no journal to be had, and fails without the store service,
with settings that cannot be shared out among the partitions, and with a key or a value that has no wire form. The last
comes after the journal was looked for, so that a new journal can be left behind; it is empty, and nobody can tell from the
sequences of later writes that it is there (`Twins`).

Results:
- `Change.encode_error_iff`: of several parts without a wire form the first one tells, key before old before new value;
- `unharmed_container?`: what a look for a journal leaves as it was;
- `resolver_step`, `resolver_run`: the settings are changed by the operations that set them, and by no others;
- `twins_step`, `twins_run`: two feeds of which one has an empty journal more stay in step;
- `refused_writes`: what becomes of a write that records nothing, and of those that come after it.
-/
import Changefeed.Proofs.Absence
import Changefeed.Proofs.Isolation

namespace Changefeed

variable {ω β : Type}

namespace Change

/-- the parts of a change, in the order in which they are put into wire form -/
def parts (c : Change ω ω) : List ω := c.key :: (c.old?.toList ++ c.new?.toList)

/-- why a change has no wire form: the first of its parts without one tells -/
def failure? (encode : ω → Except WireError Data) (c : Change ω ω) : Option WireError :=
  c.parts.findSome? fun v =>
    match encode v with
    | .error e => some e
    | .ok _ => none

theorem encode_error_iff {encode : ω → Except WireError Data} {c : Change ω ω} {e : WireError} :
    c.encode encode encode = .error e ↔ c.failure? encode = some e := by
  cases c with
  | added k v =>
    cases hk : encode k <;> cases hv : encode v <;>
      simp [Change.encode, failure?, parts, key, old?, new?, hk, hv, bind, Except.bind, pure, Except.pure]
  | removed k v =>
    cases hk : encode k <;> cases hv : encode v <;>
      simp [Change.encode, failure?, parts, key, old?, new?, hk, hv, bind, Except.bind, pure, Except.pure]
  | updated k v w =>
    cases hk : encode k <;> cases hv : encode v <;> cases hw : encode w <;>
      simp [Change.encode, failure?, parts, key, old?, new?, hk, hv, hw, bind, Except.bind, pure, Except.pure]
  | evicted k v =>
    cases hk : encode k <;> cases hv : encode v <;>
      simp [Change.encode, failure?, parts, key, old?, new?, hk, hv, bind, Except.bind, pure, Except.pure]

end Change

/-- the operation appends nothing to the journal of a key but by a write -/
def Op.writesOnlyTo (key : JournalKey) : Op ω β → Bool
  | .append h .. => h.key ≠ key
  | _ => true

/-- the settings after an operation -/
def Op.settings (r : Resolver) : Op ω β → Resolver
  | .setRegistry registry => { r with registry }
  | .setVersion version => { r with version }
  | .setPartitions partitions => { r with partitions }
  | _ => r

/-- settings that cannot be shared out are refused as such -/
theorem JournalConfig.split_error {config : JournalConfig} {partitions : UInt32} {e : JournalError}
    (h : config.split partitions = .error e) : ∃ reason, e = .invalidConfig reason := by
  unfold split at h
  split at h
  · cases h
    exact ⟨_, rfl⟩
  · simp only at h
    split at h
    · cases h
      exact ⟨_, rfl⟩
    · cases h

namespace Feed

/-! ## What is left as it was -/

/-- everything is as it was, but for a new empty journal of a key that had none -/
structure Unharmed (f : Feed β) (key : JournalKey) (g : Feed β) : Prop where
  /-- nothing but the store can differ -/
  frame : g = { f with store := g.store }
  /-- every container, live or torn down, holds what it held -/
  kept : ∀ h c, f.store.get? h = some c → g.store.get? h = some c
  journal : g = f ∨ f.store.live? key = none ∧ ∃ c config, g = f.beginWith key c ∧ New key c ∧
    f.resolver.Admits key.ns config c.config
  written : g.written = f.written
  woken : g.wokenJobs = f.wokenJobs

/-- a new container has a number that no container had before -/
theorem get?_beginWith {f : Feed β} {key : JournalKey} (hn : f.store.live? key = none) (c : Container EventRecord)
    {h : Handle} {d : Container EventRecord} (hd : f.store.get? h = some d) :
    (f.beginWith key c).store.get? h = some d := by
  have hne : h ≠ ⟨key, (f.store.journal key).closed.length⟩ := by
    rintro rfl
    rw [Store.get?_eq_live? rfl, hn] at hd
    cases hd
  exact (Store.get?_opening hn h).trans ((if_neg hne).trans hd)

theorem unharmed_container? (f : Feed β) (key : JournalKey) : Unharmed f key (f.container? key).1 := by
  have hlook := container?_look f key
  generalize hp : f.container? key = p at hlook
  cases hlook with
  | refused e => exact ⟨rfl, fun _ _ hd => hd, Or.inl rfl, rfl, rfl⟩
  | absent => exact ⟨rfl, fun _ _ hd => hd, Or.inl rfl, rfl, rfl⟩
  | found c => exact ⟨rfl, fun _ _ hd => hd, Or.inl rfl, rfl, rfl⟩
  | begun c hr hn hc =>
    obtain ⟨config, hadmits⟩ := admits_of_container? hn hp
    exact ⟨rfl, fun h d hd => get?_beginWith hn c hd, Or.inr ⟨hn, c, config, rfl, hc, hadmits⟩, rfl, rfl⟩

section Writes

variable {encode : ω → Except WireError Data} {f : Feed β} {key : JournalKey} {now : ℕ} {change : Change ω ω}

/-- a journal that can be had refuses what has no wire form -/
theorem write_failed (hp : f.provides key = true) {e : WireError} (he : change.failure? encode = some e) :
    f.step encode (.write key now change) = ((f.container? key).1, .error (.serialization e.reason)) := by
  have hencode := Change.encode_error_iff.2 he
  obtain ⟨f', c, hlook⟩ := found_of_provides hp
  simp only [step, write, hlook, hencode]
  rfl

/-- a write that is refused records nothing, and leaves what the look for its journal left -/
theorem write_refused {e : JournalError} (h : (f.step encode (.write key now change)).2 = .error e) :
    (f.step encode (.write key now change)).1 = (f.container? key).1 ∧
      ∀ k, (Op.write (β := β) key now change).appended? encode f k = none := by
  simp only [step, answer_fst]
  have hwritten := write_written encode f key now change
  rcases hlook : f.container? key with ⟨f', e' | (_ | c)⟩
  · have hno : f.provides key = false := by simp only [provides, hlook]
    exact ⟨by simp only [write, hlook], fun k => by simp [Op.appended?, hno]⟩
  · have hno : f.provides key = false := by simp only [provides, hlook]
    exact ⟨by simp only [write, hlook], fun k => by simp [Op.appended?, hno]⟩
  · cases hencode : change.encode encode encode with
    | error e => exact ⟨by simp only [write, hlook, hencode], fun k => by simp [Op.appended?, hencode, Except.toOption]⟩
    | ok a =>
      simp only [step, write, hlook, hencode] at h
      cases h

theorem write_unsplit (hr : f.registered = true) (hn : f.store.live? key = none) {config : JournalConfig}
    (hc : f.resolver.enabledConfig? key.ns = some config) {e : JournalError}
    (he : config.split f.resolver.partitions = .error e) :
    f.step encode (.write key now change) = (f, .error e) := by
  have hlook : f.container? key = (f, .error e) := by simp [container?, hr, hn, hc, he]
  simp only [step, write, hlook]
  rfl

theorem write_unregistered (hr : f.registered = false) :
    f.step encode (.write key now change) = (f, .error (.serviceUnavailable storeService)) := by
  simp only [step, write, container?_unregistered hr]
  rfl

/-- a journal that can be had answers a write by whether the change has a wire form -/
theorem answer_write (hp : f.provides key = true) :
    (f.step encode (.write key now change)).2 =
      match change.encode encode encode with
      | .error e => .error e.toJournalError
      | .ok _ => .ok .done := by
  obtain ⟨f', c, hlook⟩ := found_of_provides hp
  simp only [step, write, hlook]
  cases change.encode encode encode <;> rfl

/-- a journal that can be had is asked for its newest sequence -/
theorem newest_provided {past : JournalKey → List EventRecord} (h : f.History past) (hp : f.provides key = true) :
    (f.newest key).2 = .ok ((past key).length - 1) := by
  obtain ⟨f', c, hlook⟩ := found_of_provides hp
  have htail := (h.found hlook).tail
  rw [newest, query_found hlook, ← htail]

end Writes

/-! ## Settings -/

section Settings

variable {encode : ω → Except WireError Data}

/-- **The settings are changed by the operations that set them**, and by no others. -/
theorem resolver_step (encode : ω → Except WireError Data) (f : Feed β) (op : Op ω β) :
    (f.step encode op).1.resolver = op.settings f.resolver := by
  cases hop : op.inner with
  | true =>
    rw [step_frame encode f hop]
    cases op <;> first | rfl | cases hop
  | false =>
    cases op with
    | write k now change =>
      have hresolver := congrArg resolver (container?_frame f k)
      simp only [step, answer_fst]
      have hwritten := write_written encode f k now change
      generalize (f.write encode k now change).1 = f' at hwritten
      cases hwritten with
      | nothing => exact hresolver
      | record a hp =>
        rw [hp] at hresolver
        exact hresolver
    | setRegistry registry => rfl
    | setVersion version => rfl
    | setPartitions partitions => rfl
    | registerStore => rfl
    | _ => cases hop

/-- the settings after a run are told by its operations alone -/
theorem resolver_run (f : Feed β) (ops : List (Op ω β)) :
    (f.run encode ops).1.resolver = ops.foldl (fun r op => op.settings r) f.resolver := by
  induction ops generalizing f with
  | nil => rfl
  | cons op ops ih =>
    rw [List.foldl_cons, ← resolver_step encode]
    exact ih _

end Settings

/-! ## Two feeds in step -/

/-- two feeds with the same past that look alike from every journal but one -/
structure Twins (key : JournalKey) (past : JournalKey → List EventRecord) (f g : Feed β) : Prop where
  sound : f.Sound past
  sound' : g.Sound past
  orderly : f.Orderly
  orderly' : g.Orderly
  alike : ∀ k, k ≠ key → Alike k f g
  names : ∀ name, (g.waiters.get? name).isSome = (f.waiters.get? name).isSome

/-- the settings of a namespace's journals are the same in both feeds -/
structure Settled (ns : Namespace) (f f' : Feed β) : Prop where
  config : f'.resolver.enabledConfig? ns = f.resolver.enabledConfig? ns
  partitions : f'.resolver.partitions = f.resolver.partitions

theorem Settled.admitted {ns : Namespace} {f f' : Feed β} (h : Settled ns f f') (ha : f.Admitted ns) :
    f'.Admitted ns := by
  obtain ⟨config, storage, hadmits⟩ := ha
  obtain ⟨henabled, hsplit⟩ := hadmits.given
  refine ⟨config, storage, Resolver.admits_of_split ?_ ?_⟩
  · rw [h.config, henabled]
  · rw [h.partitions, hsplit]

section Agreement

variable {key k : JournalKey} {f g : Feed β}

theorem any_of_agree {κ α : Type} [DecidableEq κ] {p : α → Prop} [DecidablePred p] {t t' : Table κ α}
    (h : Table.Agree p t t') (i : κ) : ((t'.get? i).any fun a => p a) = (t.get? i).any fun a => p a := by
  rw [Bool.eq_iff_iff, Option.any_eq_true, Option.any_eq_true]
  constructor
  · rintro ⟨a, ha, hp⟩
    exact ⟨a, (h i a (of_decide_eq_true hp)).1 ha, hp⟩
  · rintro ⟨a, ha, hp⟩
    exact ⟨a, (h i a (of_decide_eq_true hp)).2 ha, hp⟩

theorem map_of_agree {κ α : Type} [DecidableEq κ] {key : JournalKey} {on : α → JournalKey} {t t' : Table κ α}
    (h : Table.Agree (fun a => on a = key) t t') (i : κ) : (t'.get? i).map on = some key ↔ (t.get? i).map on = some key := by
  rw [Option.map_eq_some_iff, Option.map_eq_some_iff]
  exact exists_congr fun a => ⟨fun ⟨ha, hon⟩ => ⟨(h i a hon).1 ha, hon⟩, fun ⟨ha, hon⟩ => ⟨(h i a hon).2 ha, hon⟩⟩

theorem Alike.address? (h : Alike key f g) (op : Op ω β) : op.address? g = some key ↔ op.address? f = some key := by
  cases op with
  | poll id => exact map_of_agree h.jobs id
  | drop id => exact map_of_agree h.jobs id
  | startWatch id name => exact map_of_agree h.waiters name
  | waiterCancelled name => exact map_of_agree h.waiters name
  | dropWaiter name => exact map_of_agree h.waiters name
  | _ => exact Iff.rfl

/-- what remains of an operation for a journal is told by what the journal sees, and by which names are waiters' -/
theorem Alike.part? (h : Alike key f g) (hnames : ∀ name, (g.waiters.get? name).isSome = (f.waiters.get? name).isSome)
    (op : Op ω β) : op.part? g key = op.part? f key := by
  have htakes : op.takes? g key = op.takes? f key := by
    cases op with
    | startReader id k s b => simp only [Op.takes?, any_of_agree h.jobs]
    | startWatch id name => simp only [Op.takes?, any_of_agree h.jobs, hnames]
    | addWaiter name k => simp only [Op.takes?, any_of_agree h.waiters]
    | _ => rfl
  have hconcerns : op.concerns g key = op.concerns f key := by
    rw [Op.concerns, Op.concerns, decide_eq_decide.2 (h.address? op)]
  rw [Op.part?, Op.part?, htakes, hconcerns]

theorem alike_step (encode : ω → Except WireError Data) (h : Alike key f g) (ho : f.Orderly) (ho' : g.Orderly)
    (hnames : ∀ name, (g.waiters.get? name).isSome = (f.waiters.get? name).isSome) (op : Op ω β) :
    Alike key (f.step encode op).1 (g.step encode op).1 := by
  have hpart := alike_part encode h ho ho' op
  have hpart' := alike_part encode (.refl key g) ho' ho' op
  rw [h.part? hnames] at hpart'
  exact hpart.trans hpart'.symm

/-- which names are waiters' is told by the operations alone -/
theorem names_step (encode : ω → Except WireError Data) (hkeyed : f.store.Keyed) (hkeyed' : g.store.Keyed)
    (hring : f.Ringed) (hring' : g.Ringed)
    (hnames : ∀ name, (g.waiters.get? name).isSome = (f.waiters.get? name).isSome) (op : Op ω β) (name : String) :
    ((g.step encode op).1.waiters.get? name).isSome = ((f.step encode op).1.waiters.get? name).isSome := by
  by_cases hname : op.waiter? = some name
  · cases op with
    | addWaiter name' k =>
      obtain rfl : name' = name := Option.some.inj hname
      simp only [step, addWaiter, Table.get?_set_self]
      rfl
    | dropWaiter name' =>
      obtain rfl : name' = name := Option.some.inj hname
      simp only [step, get?_waiters_dropWaiter]
    | _ => cases hname
  · rw [step_waiter_of_ne encode hkeyed hring hname, step_waiter_of_ne encode hkeyed' hring' hname, hnames]

end Agreement

section Twins

variable {encode : ω → Except WireError Data} {key : JournalKey} {past : JournalKey → List EventRecord} {f g : Feed β}

/-- the surroundings are seen from every journal, so also from the one in the next partition -/
theorem Twins.surroundings (h : Twins key past f g) :
    g.resolver = f.resolver ∧ g.registered = f.registered := by
  have hne : (⟨key.ns, key.part + 1⟩ : JournalKey) ≠ key := fun heq => by
    have hpart := congrArg JournalKey.part heq
    simp at hpart
  exact ⟨(h.alike _ hne).resolver, (h.alike _ hne).registered⟩

/-- where the settings admit the journal in which they differ, the same journals can be had -/
theorem Twins.provides (h : Twins key past f g) (hr : f.registered = true) (ha : f.Admitted key.ns) (k : JournalKey) :
    g.provides k = f.provides k := by
  obtain ⟨hresolver, hregistered⟩ := h.surroundings
  by_cases hk : k = key
  · have hf : f.provides key = true := provides_iff.2 ⟨hr, Or.inr ha⟩
    have ha' : g.Admitted key.ns := by rwa [Admitted, hresolver]
    have hg : g.provides key = true := provides_iff.2 ⟨hregistered.trans hr, Or.inr ha'⟩
    rw [hk, hf, hg]
  · simp only [Feed.provides, (same_container? (h.alike k hk)).answer]

theorem Twins.newest (h : Twins key past f g) (hr : f.registered = true) (ha : f.Admitted key.ns) (k : JournalKey) :
    (g.newest k).2 = (f.newest k).2 := by
  by_cases hk : k = key
  · subst hk
    have hf : f.provides k = true := provides_iff.2 ⟨hr, Or.inr ha⟩
    have hg : g.provides k = true := (h.provides hr ha k).trans hf
    rw [newest_provided h.sound.history hf, newest_provided h.sound'.history hg]
  · exact (same_query (h.alike k hk) _).answer

theorem Twins.write (h : Twins key past f g) (hr : f.registered = true) (ha : f.Admitted key.ns) (k : JournalKey)
    (now : ℕ) (change : Change ω ω) :
    (g.step encode (.write k now change)).2 = (f.step encode (.write k now change)).2 := by
  by_cases hk : k = key
  · subst hk
    have hf : f.provides k = true := provides_iff.2 ⟨hr, Or.inr ha⟩
    have hg : g.provides k = true := (h.provides hr ha k).trans hf
    rw [answer_write hf, answer_write hg]
  · exact (same_step encode (h.alike k hk) h.orderly h.orderly' (by simp [Op.concerns, Op.address?, Op.journal?])).answer

theorem key_of_handle? {s : Store EventRecord} {handle : Handle} (h : s.handle? key = some handle) : handle.key = key := by
  obtain ⟨n, -, hn⟩ := Option.map_eq_some_iff.1 h
  rw [← hn]

/-- an operation does to both what it does to one -/
theorem Twins.same_record (h : Twins key past f g) (hr : f.registered = true) (ha : f.Admitted key.ns) {op : Op ω β}
    (hop : op.writesOnlyTo key = true) (k : JournalKey) (before : List EventRecord) :
    op.record encode g k before = op.record encode f k before := by
  obtain ⟨-, hregistered⟩ := h.surroundings
  have happended : op.appended? encode g k = op.appended? encode f k := by
    cases op with
    | write k' now change => simp only [Op.appended?, h.provides hr ha]
    | append handle record now =>
      by_cases hk : k = key
      · have hne : handle.key ≠ key := by simpa [Op.writesOnlyTo] using hop
        subst hk
        simp only [Op.appended?]
        rw [if_neg fun heq => hne (key_of_handle? heq), if_neg fun heq => hne (key_of_handle? heq)]
      · simp only [Op.appended?, (h.alike k hk).handle?]
    | _ => rfl
  have htorn : op.tearsDown g k = op.tearsDown f k := by
    cases op with
    | destroy k' => simp only [Op.tearsDown, hregistered]
    | _ => rfl
  rw [Op.record, Op.record, happended, htorn]

/-- **Two feeds of which one has an empty journal more stay in step.** -/
theorem twins_step (h : Twins key past f g) (hr : f.registered = true) (ha : f.Admitted key.ns) {op : Op ω β}
    (hop : op.writesOnlyTo key = true) :
    Twins key (fun k => op.record encode f k (past k)) (f.step encode op).1 (g.step encode op).1 := by
  have hsound := sound_step encode h.sound op
  have hsound' := sound_step encode h.sound' op
  simp only [h.same_record hr ha hop] at hsound'
  refine ⟨hsound, hsound', ?_, ?_, ?_, ?_⟩
  · exact hsound.orderly (owned_step encode h.sound h.orderly op)
  · exact hsound'.orderly (owned_step encode h.sound' h.orderly' op)
  · intro k hk
    exact alike_step encode (h.alike k hk) h.orderly h.orderly' h.names op
  · exact names_step encode h.sound.keyed h.sound'.keyed h.sound.history.ringed h.sound'.history.ringed h.names op

theorem twins_run (h : Twins key past f g) (hr : f.registered = true) {ops : List (Op ω β)}
    (hops : ∀ op ∈ ops, op.writesOnlyTo key = true)
    (ha : ∀ mid, mid <+: ops → (f.run encode mid).1.Admitted key.ns) :
    Twins key (fun k => recorded encode k f (past k) ops) (f.run encode ops).1 (g.run encode ops).1 := by
  induction ops generalizing f g past with
  | nil => exact h
  | cons op ops ih =>
    apply ih (twins_step h hr (ha [] List.nil_prefix) (hops op List.mem_cons_self))
    · exact registered_step encode h.sound.keyed hr op
    · intro op' hop'
      exact hops op' (List.mem_cons_of_mem op hop')
    · intro mid hmid
      exact ha (op :: mid) (List.cons_prefix_cons.2 ⟨rfl, hmid⟩)

/-- every write, to whatever journal, has the same answer and the same sequence in both feeds -/
def SameWrites (encode : ω → Except WireError Data) (f g : Feed β) : Prop :=
  ∀ k now change, (g.step encode (.write k now change)).2 = (f.step encode (.write k now change)).2 ∧
    ((g.step encode (.write k now change)).1.newest k).2 = ((f.step encode (.write k now change)).1.newest k).2

theorem SameWrites.refl (encode : ω → Except WireError Data) (f : Feed β) : SameWrites encode f f :=
  fun _ _ _ => ⟨rfl, rfl⟩

theorem Twins.sameWrites (h : Twins key past f g) (hr : f.registered = true) (ha : f.Admitted key.ns) :
    SameWrites encode f g := by
  intro k now change
  have hstep : Twins key _ (f.step encode (.write k now change)).1 (g.step encode (.write k now change)).1 :=
    twins_step h hr ha rfl
  refine ⟨h.write hr ha k now change, hstep.newest (registered_step encode h.sound.keyed hr _) ?_ k⟩
  rw [Admitted, resolver_step]
  exact ha

/-- a feed, and what is left of it by a write that is refused -/
theorem twins_of_refused (h : f.Sound past) (ho : f.Orderly) {now : ℕ} {change : Change ω ω} {e : JournalError}
    (he : (f.step encode (.write key now change)).2 = .error e) :
    Twins key past f (f.step encode (.write key now change)).1 := by
  obtain ⟨hfst, hnone⟩ := write_refused he
  have hsound := sound_step encode h (.write key now change)
  have horderly := hsound.orderly (owned_step encode h ho (.write key now change))
  have hpast : (fun k => (Op.write (β := β) key now change).record encode f k (past k)) = past := by
    funext k
    simp [Op.record, Op.tearsDown, hnone]
  rw [hpast] at hsound
  refine ⟨h, hsound, ho, horderly, ?_, ?_⟩
  · intro k hk
    rw [hfst]
    exact alike_container?_of_ne hk
  · intro name
    rw [hfst, container?_frame]

end Twins

/-- **Writes that record nothing.** After any run:
- where there is no journal to be had, a write is ignored, whether or not its parts have wire forms;
- where there is one, a write whose parts have not is refused with the reason of the first of these, and leaves all as it
  was, but for a new empty journal if there was none;
- without the store service, and with settings that cannot be shared out, it is refused and changes nothing;
- after a write that was ignored or refused, every later write, to whatever journal, has the same answer and the same
  sequence as without it, as long as the settings of the journal stay the same and nobody appends to it past the feed. -/
theorem refused_writes (encode : ω → Except WireError Data) (resolver : Resolver) (registered : Bool)
    (ops : List (Op ω β)) (key : JournalKey) (now : ℕ) (change : Change ω ω) :
    let f : Feed β := (run encode (init resolver registered) ops).1
    let p := f.step encode (.write key now change)
    (f.registered = true → f.store.live? key = none → f.resolver.Withholds key.ns → p = (f, .ok .done)) ∧
    (∀ e, f.registered = true → ((∃ c, f.store.live? key = some c) ∨ f.Admitted key.ns) →
      change.failure? encode = some e → p.2 = .error (.serialization e.reason) ∧ Unharmed f key p.1) ∧
    (f.registered = false → p = (f, .error (.serviceUnavailable storeService))) ∧
    (∀ config e, f.registered = true → f.store.live? key = none → f.resolver.enabledConfig? key.ns = some config →
      config.split f.resolver.partitions = .error e → p = (f, .error e) ∧ ∃ reason, e = .invalidConfig reason) ∧
    ((p = (f, .ok .done) ∨ ∃ e, p.2 = .error e) → ∀ after : List (Op ω β),
      (∀ op ∈ after, op.writesOnlyTo key = true) → (∀ mid, mid <+: after → Settled key.ns f (f.run encode mid).1) →
      SameWrites encode (f.run encode after).1 (p.1.run encode after).1) := by
  intro f p
  have h : f.Sound _ := sound_run encode (sound_init resolver registered) ops
  have ho : f.Orderly := orderly_run encode (sound_init resolver registered) (orderly_init resolver registered) ops
  refine ⟨?_, ?_, write_unregistered, ?_, ?_⟩
  · intro hr hl hoff
    exact (absent_of_none hr hoff hl).writes now change
  · intro e hr hhad hfailure
    have hfailed : p = ((f.container? key).1, .error (.serialization e.reason)) :=
      write_failed (provides_iff.2 ⟨hr, hhad⟩) hfailure
    refine ⟨congrArg Prod.snd hfailed, ?_⟩
    rw [show p.1 = (f.container? key).1 from congrArg Prod.fst hfailed]
    exact unharmed_container? f key
  · intro config e hr hl hconfig hsplit
    exact ⟨write_unsplit hr hl hconfig hsplit, JournalConfig.split_error hsplit⟩
  · intro hrefused after hafter hsettled
    have hsame : p.1 = f → SameWrites encode (f.run encode after).1 (p.1.run encode after).1 := by
      intro heq
      rw [heq]
      exact .refl encode _
    rcases hrefused with hignored | ⟨e, he⟩
    · exact hsame (congrArg Prod.fst hignored)
    · rcases container?_founds f key with hkept | ⟨_, _, _, _, hfounds⟩
      · exact hsame ((write_refused he).1.trans hkept)
      · -- a journal was created: the settings admit it, and go on to do so
        have hr := hfounds.registered
        obtain ⟨c, config, -, hadmits⟩ := hfounds.admitted
        have hadmitted : ∀ mid, mid <+: after → (f.run encode mid).1.Admitted key.ns := by
          intro mid hmid
          exact (hsettled mid hmid).admitted ⟨config, c.config, hadmits⟩
        have htwins := twins_run (twins_of_refused h ho he) hr hafter hadmitted
        exact htwins.sameWrites (registered_run encode h hr after) (hadmitted after (List.prefix_refl after))

/-- what holds a nine has no wire form, for a reason that tells its length -/
def brittleForm (d : Data) : Except WireError Data := if 9 ∈ d then .error ⟨toString d.length⟩ else .ok d

/-- the settings of the next lemma: more partitions than records -/
def crowdedResolver : Resolver := { smallResolver with partitions := 5 }

/-- of an old and a new value without a wire form the old one tells; the stocks are left empty, and go on as if nothing
had been tried. Under too old a version, without the store service and with too many partitions nothing is looked at. -/
theorem refused_writes_brittle :
    let change : Change Data Data := .updated [1] [9] [9, 9]
    let f := (run brittleForm (init smallResolver true : Feed Data) [addOrder 0]).1
    let p := f.step brittleForm (.write stocksKey 0 change)
    let after : List (Op Data Data) := [.write stocksKey 0 (.added [1] [1]), .destroy ordersKey]
    (f.Admitted stocksKey.ns ∧ change.failure? brittleForm = some ⟨"1"⟩ ∧ p.2 = .error (.serialization "1") ∧
      Unharmed f stocksKey p.1 ∧ (p.1.store.live? stocksKey).isSome = true) ∧
    (∀ mid, mid <+: after → Settled stocksKey.ns f (f.run brittleForm mid).1) ∧
    SameWrites brittleForm (f.run brittleForm after).1 (p.1.run brittleForm after).1 ∧
    (init oldResolver true : Feed Data).step brittleForm (.write stocksKey 0 change) = (init oldResolver true, .ok .done) ∧
    (init smallResolver false : Feed Data).step brittleForm (.write stocksKey 0 change) =
      (init smallResolver false, .error (.serviceUnavailable storeService)) ∧
    ∃ e, crowdedResolver.enabledConfig? stocksKey.ns = some (.ofCapacity 4) ∧
      (JournalConfig.ofCapacity 4).split 5 = .error e ∧
      (init crowdedResolver true : Feed Data).step brittleForm (.write stocksKey 0 change) =
        (init crowdedResolver true, .error e) := by
  intro change f p after
  have hadmitted : f.Admitted stocksKey.ns := by
    refine ⟨.ofCapacity 4, ⟨4, 0, 0, 0, .object⟩, Resolver.admits_of_split rfl ?_⟩
    decide
  have hfailure : change.failure? brittleForm = some ⟨"1"⟩ := by decide
  have hsettled : ∀ mid, mid <+: after → Settled stocksKey.ns f (f.run brittleForm mid).1 := by
    intro mid hmid
    have hmid := (List.mem_inits mid after).2 hmid
    simp only [after, List.inits, List.map_cons, List.map_nil, List.mem_cons, List.not_mem_nil, or_false] at hmid
    rcases hmid with rfl | rfl | rfl <;> exact ⟨by decide +kernel, by decide +kernel⟩
  obtain ⟨-, hfailed, -, -, hlater⟩ := refused_writes brittleForm smallResolver true [addOrder 0] stocksKey 0 change
  obtain ⟨hanswer, hunharmed⟩ := hfailed _ rfl (Or.inr hadmitted) hfailure
  have hsame := hlater (Or.inr ⟨_, hanswer⟩) after (by decide) hsettled
  obtain ⟨hignored, -, -, -, -⟩ := refused_writes (β := Data) brittleForm oldResolver true [] stocksKey 0 change
  obtain ⟨-, -, hmissing, -, -⟩ := refused_writes (β := Data) brittleForm smallResolver false [] stocksKey 0 change
  obtain ⟨-, -, -, hunsplit, -⟩ := refused_writes (β := Data) brittleForm crowdedResolver true [] stocksKey 0 change
  refine ⟨⟨hadmitted, hfailure, hanswer, hunharmed, by decide +kernel⟩, hsettled, hsame, ?_, hmissing rfl, ?_⟩
  · exact hignored rfl rfl (.old (by decide))
  · exact ⟨_, rfl, rfl, (hunsplit _ _ rfl rfl rfl rfl).1⟩

end Feed

end Changefeed
