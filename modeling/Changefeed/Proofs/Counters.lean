/-
What the counters say. The store counts the containers that it creates and destroys, the feed the writes that append a record,
by kind. Over a whole run, created containers are live or destroyed; and every record that was written is in the tail of a
container that is live, or was in that of one when it was torn down.

A write first looks for its journal and then puts its values into wire form. One whose values have none is refused, but may
have created its journal on the way, and then that is counted.

Results:
- `Moves.tails`, `Moves.containers`: what an operation does to the tails and the number of the live containers;
- `written_step`: the writes of a kind are counted by the writes of that kind that append a record, and by nothing else;
- `counters_balance`: the counters of a run against what happened in it, and what is not counted.
-/
import Changefeed.Proofs.Ledger
import Changefeed.Proofs.Refusals
import Changefeed.Proofs.Written

namespace Changefeed

variable {ω β : Type}

/-- how many records the live container of a key was given -/
def Store.tally (s : Store EventRecord) (key : JournalKey) : ℤ := ((s.live? key).map fun c => c.tail + 1).getD 0

/-- the operation is a write of this kind after which its journal was given one record more -/
def Op.adds (encode : ω → Except WireError Data) (f : Feed β) (kind : EventKind) (op : Op ω β) : Bool :=
  match op with
  | .write key _ change => change.kind = kind ∧ (f.step encode op).1.store.tally key = f.store.tally key + 1
  | _ => false

namespace Feed

/-- how many writes of a kind append a record in a run -/
def writes (encode : ω → Except WireError Data) (kind : EventKind) : Feed β → List (Op ω β) → ℕ
  | _, [] => 0
  | f, op :: ops => (op.adds encode f kind).toNat + writes encode kind (f.step encode op).1 ops

/-- the containers that a run tears down, each as it was until then -/
def tornDown (encode : ω → Except WireError Data) : Feed β → List (Op ω β) → List (Container EventRecord)
  | _, [] => []
  | f, op :: ops => (op.torn? f).toList ++ tornDown encode (f.step encode op).1 ops

/-- how many writes were counted, of all kinds together -/
def writtenAll (f : Feed β) : ℕ := (EventKind.all.map f.writtenOf).sum

/-! ## The store -/

/-- a use moves the tail by what it appends -/
theorem Used.tail_gain {c c' : Container EventRecord} {a : Option EventRecord} (h : Used c a c') :
    c'.tail = c.tail + a.toList.length := by
  cases h <;> simp

end Feed

namespace Store

variable {given : JournalKey → StorageConfig → Prop} {s s' : Store EventRecord} {a : Option EventRecord}
  {torn : Option (Container EventRecord)}

/-- the number of live containers grows by what is created, and falls by what is torn down -/
theorem Moves.containers (h : Moves given s a torn s') :
    (s'.size : ℤ) + torn.toList.length = s.size + (s'.created - s.created) := by
  have hweigh := h.weigh (fun _ => 1) 1 (fun _ => 0) rfl (fun _ _ _ _ => rfl) fun _ _ _ _ => rfl
  rw [weigh_one, weigh_one] at hweigh
  cases torn <;> simpa using hweigh

/-- the tails of the live containers move by what is appended, and lose those of the containers that are torn down -/
theorem Moves.tails (h : Moves given s a torn s') :
    s'.weigh (fun c => c.tail + 1) + (torn.toList.map fun c => c.tail + 1).sum =
      s.weigh (fun c => c.tail + 1) + a.toList.length := by
  have hnew : ∀ key config (c : Container EventRecord), Container.create key config = .ok c → c.tail + 1 = 0 := by
    intro key config c hc
    rw [(Container.records_create hc).tail]
    rfl
  have hused : ∀ (c : Container EventRecord) a c', Feed.Used c a c' → c'.tail + 1 = c.tail + 1 + a.toList.length := by
    intro c a c' hu
    rw [hu.tail_gain]
    omega
  have hweigh := h.weigh (fun c => c.tail + 1) 0 (fun a => a.toList.length) rfl hnew hused
  cases torn <;> simpa using hweigh

end Store

namespace Feed

/-! ## Writes -/

section Steps

variable (encode : ω → Except WireError Data) {f : Feed β}

/-- an operation that does not tear a journal down gives it what it appends -/
theorem tally_step (hkeyed : f.store.Keyed) {op : Op ω β} {key : JournalKey} (htorn : op.tearsDown f key = false) :
    (f.step encode op).1.store.tally key = f.store.tally key + (op.appended? encode f key).toList.length := by
  have hfate := step_fate encode hkeyed op key
  rw [htorn] at hfate
  unfold Store.tally Store.live?
  generalize (f.step encode op).1.store.journal key = g at hfate
  generalize op.appended? encode f key = a at hfate
  cases hfate with
  | kept => simp
  | used hc hu =>
    rw [hc]
    simp only [Option.map_some, Option.getD_some, hu.tail_gain]
    omega
  | begun hn hc hu =>
    rw [hn]
    simp only [Option.map_some, Option.map_none, Option.getD_some, Option.getD_none, hu.tail_gain, hc.records.tail]
    simp
  | behind hn _ _ =>
    rw [Generations.opened_modify_of_ne _ hn]
    simp

/-- a write of a kind appends a record if the journal can be had and the change has a wire form -/
theorem adds_write (hkeyed : f.store.Keyed) (key : JournalKey) (now : ℕ) (change : Change ω ω) (kind : EventKind) :
    (Op.write (β := β) key now change).adds encode f kind = true ↔
      change.kind = kind ∧ ((Op.write (β := β) key now change).appended? encode f key).isSome = true := by
  have htally := tally_step encode hkeyed (show (Op.write key now change).tearsDown f key = false from rfl)
  rw [Op.adds, decide_eq_true_iff, htally]
  cases (Op.write (β := β) key now change).appended? encode f key <;> simp

/-- what a write appends is of the kind of the change -/
theorem kind_of_appended {key k : JournalKey} {now : ℕ} {change : Change ω ω} {a : EventRecord}
    (h : (Op.write (β := β) key now change).appended? encode f k = some a) : a.kind = change.kind := by
  simp only [Op.appended?] at h
  split at h
  · cases hencode : change.encode encode encode with
    | error e =>
      rw [hencode] at h
      cases h
    | ok b =>
      rw [hencode] at h
      cases h
      exact Change.kind_encode hencode
  · cases h

/-- counting a write of one kind counts none of another -/
theorem writtenOf_set (f : Feed β) (kind kind' : EventKind) :
    ((f.written.set kind (f.writtenOf kind + 1)).get? kind').getD 0 =
      f.writtenOf kind' + (decide (kind = kind')).toNat := by
  by_cases h : kind = kind'
  · subst h
    simp
  · rw [Table.get?_set_of_ne _ (Ne.symm h), decide_eq_false h]
    rfl

/-- **The writes of a kind are counted by the writes of that kind that append a record**, and by nothing else. -/
theorem written_step (hkeyed : f.store.Keyed) (op : Op ω β) (kind : EventKind) :
    (f.step encode op).1.writtenOf kind = f.writtenOf kind + (op.adds encode f kind).toNat := by
  have hkept : (f.step encode op).1.written = f.written → op.adds encode f kind = false →
      (f.step encode op).1.writtenOf kind = f.writtenOf kind + (op.adds encode f kind).toNat := by
    intro hwritten hadds
    rw [writtenOf, hwritten, hadds]
    rfl
  cases hop : op.inner with
  | true =>
    refine hkept (by rw [step_frame encode f hop]) ?_
    cases op <;> first | rfl | cases hop
  | false =>
    cases op with
    | write key now change =>
      have hadds := adds_write encode hkeyed key now change kind
      have hwritten := write_written encode f key now change
      have hstep : (f.step encode (.write key now change)).1 = (f.write encode key now change).1 := answer_fst _ _
      rw [← hstep] at hwritten
      generalize hf' : (f.step encode (.write key now change)).1 = f' at hwritten hkept ⊢
      cases hwritten with
      | nothing hno =>
        refine hkept (by rw [container?_frame]) ?_
        rw [hno key] at hadds
        simpa using hadds
      | @record f' c a hp ha =>
        have happended := (ha key).trans (if_pos rfl)
        have hlook := congrArg written (container?_frame f key)
        rw [hp] at hlook
        have hwritten : f'.writtenOf kind = f.writtenOf kind := congrArg (fun t => (t.get? kind).getD 0) hlook
        have hkind : (Op.write (β := β) key now change).adds encode f kind = decide (a.kind = kind) := by
          rw [Bool.eq_iff_iff, hadds, happended, kind_of_appended encode happended]
          simp
        rw [hkind, ← hwritten]
        exact writtenOf_set f' a.kind kind
    | setRegistry registry => exact hkept rfl rfl
    | setVersion version => exact hkept rfl rfl
    | setPartitions partitions => exact hkept rfl rfl
    | registerStore => exact hkept rfl rfl
    | _ => cases hop

/-- a record that is appended by a write is counted once, under one kind -/
theorem writtenAll_step (hkeyed : f.store.Keyed) {op : Op ω β} (hop : op.writesOnly = true) :
    (f.step encode op).1.writtenAll = f.writtenAll + (op.grown? encode f).toList.length := by
  have hadds : (EventKind.all.map fun kind => (op.adds encode f kind).toNat).sum = (op.grown? encode f).toList.length := by
    cases op with
    | write key now change =>
      have hkind : ∀ kind, (Op.write (β := β) key now change).adds encode f kind =
          (decide (change.kind = kind) && ((Op.write (β := β) key now change).grown? encode f).isSome) := by
        intro kind
        rw [Bool.eq_iff_iff, adds_write encode hkeyed, Bool.and_eq_true, decide_eq_true_iff]
        rfl
      simp only [hkind]
      cases (Op.write (β := β) key now change).grown? encode f with
      | none => simp
      | some a => cases change.kind <;> rfl
    | append h record now => cases hop
    | _ => rfl
  unfold writtenAll
  rw [← hadds, ← List.sum_map_add]
  exact congrArg (fun w => (EventKind.all.map w).sum) (funext fun kind => written_step encode hkeyed op kind)

end Steps

/-! ## Runs -/

/-- the store counts what it does: nothing was live at first, and every container that was created is live or destroyed -/
theorem containers_run (encode : ω → Except WireError Data) {f : Feed β} {past : JournalKey → List EventRecord}
    (h : f.Sound past) (hcounts : f.store.created = f.store.destroyed + f.store.size) (ops : List (Op ω β)) :
    let f' := (f.run encode ops).1
    f'.store.created = f'.store.destroyed + f'.store.size ∧
      f'.store.destroyed = f.store.destroyed + (tornDown encode f ops).length := by
  induction ops generalizing f past with
  | nil => exact ⟨hcounts, rfl⟩
  | cons op ops ih =>
    have hmoves := step_moves encode h.keyed op
    have hcontainers := hmoves.containers
    have hdestroyed := hmoves.destroyed
    obtain ⟨hcreated, htorn⟩ := ih (sound_step encode h op) (by omega)
    refine ⟨hcreated, ?_⟩
    rw [tornDown, List.length_append]
    simp only [run]
    omega

theorem written_run (encode : ω → Except WireError Data) {f : Feed β} {past : JournalKey → List EventRecord}
    (h : f.Sound past) (ops : List (Op ω β)) (kind : EventKind) :
    (f.run encode ops).1.writtenOf kind = f.writtenOf kind + writes encode kind f ops := by
  induction ops generalizing f past with
  | nil => rfl
  | cons op ops ih =>
    have hrun := ih (sound_step encode h op)
    rw [written_step encode h.keyed op kind] at hrun
    rw [writes, ← add_assoc]
    exact hrun

/-- **Every record is in a tail**: that of a live container, or that of one when it was torn down. -/
theorem tails_run (encode : ω → Except WireError Data) {f : Feed β} {past : JournalKey → List EventRecord}
    (h : f.Sound past) {ops : List (Op ω β)} (hops : ∀ op ∈ ops, op.writesOnly = true) :
    ((f.run encode ops).1.writtenAll : ℤ) + f.store.weigh (fun c => c.tail + 1) =
      f.writtenAll + (f.run encode ops).1.store.weigh (fun c => c.tail + 1) +
        ((tornDown encode f ops).map fun c => c.tail + 1).sum := by
  induction ops generalizing f past with
  | nil => simp [run, tornDown]
  | cons op ops ih =>
    have htails := (step_moves encode h.keyed op).tails
    have hwritten := writtenAll_step encode h.keyed (hops op List.mem_cons_self)
    have hrun := ih (sound_step encode h op) fun op' hop' => hops op' (List.mem_cons_of_mem op hop')
    rw [tornDown, List.map_append, List.sum_append]
    simp only [run] at hrun ⊢
    omega

/-! ## What is not counted -/

/-- no counter was changed -/
structure Uncounted (f f' : Feed β) : Prop where
  created : f'.store.created = f.store.created
  destroyed : f'.store.destroyed = f.store.destroyed
  written : ∀ kind, f'.writtenOf kind = f.writtenOf kind

section Uncounted

variable {encode : ω → Except WireError Data} {f : Feed β} {key : JournalKey} {now : ℕ} {change : Change ω ω}

/-- a write that succeeds without giving its journal a record does nothing -/
theorem write_idle (hkeyed : f.store.Keyed) (hdone : (f.step encode (.write key now change)).2 = .ok .done)
    (htally : (f.step encode (.write key now change)).1.store.tally key = f.store.tally key) :
    (f.step encode (.write key now change)).1 = f := by
  have hgrown := tally_step encode hkeyed (show (Op.write key now change).tearsDown f key = false from rfl)
  have hlook := container?_look f key
  rcases hp : f.container? key with ⟨f', e | (_ | c)⟩
  · simp only [step, write, hp, answer] at hdone
    cases hdone
  · rw [hp] at hlook
    cases hlook
    simp only [step, write, hp, answer]
  · cases hencode : change.encode encode encode with
    | error e =>
      simp only [step, write, hp, hencode, answer] at hdone
      cases hdone
    | ok a =>
      have happended : (Op.write (β := β) key now change).appended? encode f key = some a := by
        simp [Op.appended?, provides_of_found hp, hencode, Except.toOption]
      rw [happended, htally] at hgrown
      simp at hgrown

/-- a write that is refused changes nothing, or leaves an empty container where there was none, which the settings admit and
which is counted -/
theorem write_refused_counts (hkeyed : f.store.Keyed) {e : JournalError}
    (h : (f.step encode (.write key now change)).2 = .error e) :
    let f' := (f.step encode (.write key now change)).1
    (∀ kind, f'.writtenOf kind = f.writtenOf kind) ∧ f'.store.destroyed = f.store.destroyed ∧
      (f' = f ∨ f.store.live? key = none ∧ f'.store.created = f.store.created + 1 ∧
        ∃ c config, f'.store.live? key = some c ∧ c.tail = -1 ∧ f.resolver.Admits key.ns config c.config) := by
  obtain ⟨hf', -⟩ := write_refused h
  intro f'
  have hunharmed : Unharmed f key f' := by
    rw [show f' = (f.container? key).1 from hf']
    exact unharmed_container? f key
  refine ⟨fun kind => by rw [writtenOf, hunharmed.written]; rfl, ?_, ?_⟩
  · exact (step_moves encode hkeyed (.write key now change)).destroyed
  · rcases hunharmed.journal with hsame | ⟨hn, c, config, hbegun, hnew, hadmits⟩
    · exact Or.inl hsame
    · have hlive : f'.store.live? key = some c := by
        rw [hbegun]
        exact live?_beginWith f key c
      exact Or.inr ⟨hn, by rw [hbegun]; rfl, c, config, hlive, hnew.records.tail, hadmits⟩

/-- an operation that is told that there is no journal to be had counts nothing -/
theorem uncounted_of_withheld {past : JournalKey → List EventRecord} (h : f.Sound past) {op : Op ω β}
    (hop : withheld (f.step encode op).2 = true) : Uncounted f (f.step encode op).1 := by
  refine ⟨(barren_of_withheld encode h hop).created, ?_, fun kind => ?_⟩
  · have hdestroyed := (step_moves encode h.keyed op).destroyed
    cases op with
    | destroy k => cases hop
    | discard k => cases hop
    | _ => exact hdestroyed
  · have hwritten := written_step encode h.keyed op kind
    cases op with
    | write k n c =>
      cases hanswer : (f.write encode k n c).2 with
      | error e =>
        have hrefused : (f.step encode (.write k n c)).2 = .error e := by
          rw [step, ← Prod.mk.eta (p := f.write encode k n c), hanswer]
          rfl
        exact (write_refused_counts h.keyed hrefused).1 kind
      | ok a =>
        rw [step, ← Prod.mk.eta (p := f.write encode k n c), hanswer] at hop
        cases hop
    | _ => exact hwritten

/-- tearing down what is not there counts nothing -/
theorem uncounted_of_absent (encode : ω → Except WireError Data) (hl : f.store.live? key = none) :
    Uncounted f (f.step encode (.destroy key)).1 ∧ Uncounted f (f.step encode (.discard key)).1 := by
  have hdiscard : f.store.discard key = (f.store, false) := by rw [Store.discard, hl]
  constructor
  · simp only [step, destroy, hdiscard]
    split <;> exact ⟨rfl, rfl, fun _ => rfl⟩
  · simp only [step, hdiscard]
    exact ⟨rfl, rfl, fun _ => rfl⟩

end Uncounted

/-- what an operation counts: a container that comes to be, one that is torn down, and a write that appends a record -/
structure Counted (encode : ω → Except WireError Data) (f : Feed β) (op : Op ω β) (f' : Feed β) : Prop where
  created : Store.Barren f.store f'.store ∨ f'.store.created = f.store.created + 1 ∧
    ∃ key, f.store.live? key = none ∧ ∃ c, f'.store.live? key = some c
  destroyed : f'.store.destroyed = f.store.destroyed + (op.torn? f).toList.length
  written : ∀ kind, f'.writtenOf kind = f.writtenOf kind + (op.adds encode f kind).toNat

theorem counted_step {encode : ω → Except WireError Data} {f : Feed β} (hkeyed : f.store.Keyed) (op : Op ω β) :
    Counted encode f op (f.step encode op).1 :=
  ⟨(step_moves encode hkeyed op).created, (step_moves encode hkeyed op).destroyed, written_step encode hkeyed op⟩

/-- **The counters balance.** After every run:
- the containers that were created are live or destroyed, and those that were destroyed are those that were torn down;
- the writes of a kind that were counted are those that appended a record;
- if records were appended by writes alone, there are as many of them, of all kinds together, as the tails of the live
  containers say, and those of the others when they were torn down.

What comes next is counted for what it does. Nothing is counted for a write that does nothing, where there is no journal to be
had, where a container is asked for that is there, and where one is torn down that is not. A write that is refused is not
counted as a write; but the container that the settings admitted and that it created on its way to be refused is counted as
created. -/
theorem counters_balance (encode : ω → Except WireError Data) (resolver : Resolver) (registered : Bool)
    (ops : List (Op ω β)) :
    let start : Feed β := init resolver registered
    let f := (start.run encode ops).1
    let gone := tornDown encode start ops
    (f.store.created = f.store.destroyed + f.store.size ∧ f.store.destroyed = gone.length) ∧
    (∀ kind, f.writtenOf kind = writes encode kind start ops) ∧
    ((∀ op ∈ ops, op.writesOnly = true) →
      (f.writtenAll : ℤ) = (f.store.living.map fun c => c.tail + 1).sum + (gone.map fun c => c.tail + 1).sum) ∧
    (∀ op : Op ω β, Counted encode f op (f.step encode op).1 ∧
      (withheld (f.step encode op).2 = true → Uncounted f (f.step encode op).1)) ∧
    (∀ key now change,
      let p := f.step encode (.write key now change)
      (p.2 = .ok .done → p.1.store.tally key = f.store.tally key → p.1 = f) ∧
      ∀ e, p.2 = .error e → (∀ kind, p.1.writtenOf kind = f.writtenOf kind) ∧ p.1.store.destroyed = f.store.destroyed ∧
        (p.1 = f ∨ f.store.live? key = none ∧ p.1.store.created = f.store.created + 1 ∧
          ∃ c config, p.1.store.live? key = some c ∧ c.tail = -1 ∧ f.resolver.Admits key.ns config c.config)) ∧
    ∀ key, (∀ config c, f.store.live? key = some c → (f.step encode (.provide key config)).1 = f) ∧
      (f.store.live? key = none →
        Uncounted f (f.step encode (.destroy key)).1 ∧ Uncounted f (f.step encode (.discard key)).1) := by
  intro start f gone
  have hstart : start.Sound fun _ => [] := sound_init resolver registered
  have h : f.Sound _ := sound_run encode hstart ops
  obtain ⟨hcreated, hdestroyed⟩ := containers_run encode hstart rfl ops
  refine ⟨⟨hcreated, ?_⟩, ?_, ?_, ?_, ?_, ?_⟩
  · rw [hdestroyed]
    exact Nat.zero_add _
  · intro kind
    rw [written_run encode hstart ops kind]
    exact Nat.zero_add _
  · intro hops
    have htails := tails_run encode hstart hops
    have hwritten : (start.writtenAll : ℤ) = 0 := rfl
    have hweight : start.store.weigh (fun c => c.tail + 1) = 0 := rfl
    rw [hwritten, hweight, add_zero, zero_add] at htails
    exact htails
  · exact fun op => ⟨counted_step h.keyed op, uncounted_of_withheld h⟩
  · exact fun key now change => ⟨write_idle h.keyed, fun e => write_refused_counts h.keyed⟩
  · intro key
    refine ⟨fun config c hl => ?_, uncounted_of_absent encode⟩
    simp only [step, Store.live?_provide hl]

/-- two orders are written; a third has no wire form, nor have the first stocks; the orders are torn down, once and again,
and written anew; the stocks are asked for, which are there -/
def busyOrders : List (Op Data Data) :=
  [addOrder 0, addOrder 1, addOrder 9, .write stocksKey 0 (.added [9] [1]), .destroy ordersKey, .discard ordersKey,
    .write ordersKey 0 (.removed [0] [0]), .provide stocksKey ⟨1, 0, 0, 0, .object⟩]

theorem counters_balance_orders :
    let start : Feed Data := init smallResolver true
    let f := (start.run brittleForm busyOrders).1
    (f.store.created = 3 ∧ f.store.destroyed = 1 ∧ f.store.size = 2) ∧
    (f.writtenOf .added = 2 ∧ f.writtenOf .removed = 1 ∧ f.writtenOf .updated = 0) ∧
    ((f.store.living.map fun c => c.tail + 1) = [1, 0] ∧
      ((tornDown brittleForm start busyOrders).map fun c => c.tail + 1) = [2]) ∧
    (f.store.created = f.store.destroyed + f.store.size ∧
      f.writtenOf .added = writes brittleForm .added start busyOrders ∧
      (f.writtenAll : ℤ) = (f.store.living.map fun c => c.tail + 1).sum +
        ((tornDown brittleForm start busyOrders).map fun c => c.tail + 1).sum) := by
  obtain ⟨⟨hcreated, -⟩, hwrites, htails, -⟩ := counters_balance brittleForm smallResolver true busyOrders
  refine ⟨by decide +kernel, by decide +kernel, by decide +kernel, hcreated, hwrites .added, htails (by decide)⟩

/-- a write is refused and yet something is counted: the first stocks have no wire form, but their journal is there -/
theorem counters_balance_refused :
    let f : Feed Data := init smallResolver true
    let p := f.step brittleForm (.write stocksKey 0 (.added [9] [1]))
    p.2 = .error (.serialization "1") ∧ ¬ Uncounted f p.1 ∧ p.1.store.created = 1 := by
  refine ⟨rfl, fun h => ?_, rfl⟩
  exact absurd h.created (by decide +kernel)

end Feed

end Changefeed
