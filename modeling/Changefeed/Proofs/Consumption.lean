/-
Consuming a journal call by call. A consumer subscribes, and from then on reads: each call starts with a fresh batch
where the one before it ended, and is polled until it is done. Between the polls anything can happen that leaves the
journals to the feed, but nobody tears the journal down while the consumer has no registered call.

`Consumption` is the consumer's side of it, together with what it is measured against: the records that were written to
the journal since the subscription, until it was torn down, and whether it was.

Results:
- `poll_went`: what a poll of a call comes to while the journal is there;
- `consuming_step`, `consuming_run`: what has been received is what was written, up to where the consumer is;
- `consumed_exactly_once`: all of it, and how a call fails.
-/
import Changefeed.Proofs.Tracks
import Changefeed.Proofs.Wakeup

namespace Changefeed

variable {ω β : Type}

namespace Feed

/-! ## One poll -/

/-- what a poll of a reader comes to while its journal is there -/
inductive Went (f : Feed β) (id : String) (r : Reader β) (d : Container EventRecord) (past : List EventRecord)
    (first : Int) (b : Batch EventRecord β) : Feed β × Option (Progress β) → Prop
  | asleep (watch : Watch) (hp : r.parked = some watch) (hready : f.waits.ready watch = false) :
      Went f id r d past first b (f, some .pending)
  | stale (f' : Feed β) (hs : r.position < d.head) :
      Went f id r d past first b (f', some (.finished (.error (.staleSequence r.position d.head))))
  | done (f' : Feed β) (result : Batch EventRecord β) (n : ℕ) (hh : d.head ≤ r.position)
      (hreached : Reached past first b n result)
      (hlast : result.full = true ∨ n = past.length ∧ result.satisfied = true) :
      Went f id r d past first b (f', some (.finished (.ok result)))
  | parked (f' : Feed β) (watch : Watch) (b' : Batch EventRecord β) (hh : d.head ≤ r.position)
      (hjob : f'.jobs.get? id = some (.reader ⟨r.key, past.length, b', some watch⟩))
      (hstand : f'.waits.isCancelled watch.waiter = false) (hreached : Reached past first b past.length b')
      (hfull : b'.full = false) : Went f id r d past first b (f', some .pending)

section Polls

variable {f f₀ : Feed β} {past : JournalKey → List EventRecord} {id : String} {r : Reader β} {w : Waiter}
  {d : Container EventRecord} {first : Int} {b : Batch EventRecord β}

/-- registering a reader does nothing to the journals -/
theorem Enrolled.same (he : Enrolled f r f₀ w) : f₀.registered = f.registered ∧ f₀.store = f.store := by
  cases he <;> exact ⟨rfl, rfl⟩

/-- a reader that registers is not cancelled, and one that was registered is what it was -/
theorem Enrolled.standing (h : f.Sound past) (hjob : f.jobs.get? id = some (.reader r)) (he : Enrolled f r f₀ w)
    (hstand : ∀ watch, r.parked = some watch → f.waits.isCancelled watch.waiter = false) :
    f₀.waits.isCancelled w = false := by
  obtain ⟨haccounts, -, -⟩ := he.accounts h.enlisted hjob
  cases he with
  | woken watch hp _ => exact hstand watch hp
  | first _ => exact haccounts.not_cancelled (WaitRegistry.current_register f.waits r.key)

theorem CaughtUp.head_le {c : Container EventRecord} {s : Int} {b b' : Batch EventRecord β} (h : CaughtUp c s b b')
    (hh : c.head ≤ c.tail + 1) : c.head ≤ s := by
  cases h with
  | still hs => rw [hs]; exact hh
  | read _ _ hhead _ _ _ => exact hhead

/-- **What a poll comes to while the journal is there.** The reader sleeps on, or is told that it is too late, or is done,
or parks behind the tail. -/
theorem poll_went (h : f.Sound past) (hreg : f.registered = true) (hlive : f.store.live? r.key = some d)
    (hjob : f.jobs.get? id = some (.reader r)) (hready : Ready (past r.key) first b r.position r.batch)
    (hle : r.position ≤ (past r.key).length)
    (hstand : ∀ watch, r.parked = some watch → f.waits.isCancelled watch.waiter = false) :
    Went f id r d (past r.key) first b (f.poll id) := by
  have hrecords := h.history.live hlive
  have htail := hrecords.tail
  have hfound : ∀ f₀ w, Enrolled f r f₀ w → f₀.container? w.key = (f₀, .ok (some d)) := by
    intro f₀ w he
    obtain ⟨hreg₀, hstore₀⟩ := he.same
    rw [he.key h hjob]
    exact container?_live (hreg₀.trans hreg) (by rw [hstore₀, hlive])
  obtain ⟨f', p, heq, hpolled⟩ := poll_polled h.history.ringed hjob
  rw [heq]
  cases hpolled with
  | asleep watch hp hasleep => exact .asleep watch hp hasleep
  | ended f₀ f₁ w result he ho =>
    have hstands := he.standing h hjob hstand
    cases ho with
    | dismissed hc =>
      rw [hstands] at hc
      cases hc
    | denied e _ hdenied => simp [container, hfound _ _ he] at hdenied
    | served _ c _ _ hl hs =>
      rw [hfound _ _ he] at hl
      cases hl
      cases hs with
      | refused e hrefused =>
        obtain ⟨hstale, rfl⟩ := Container.checkPosition_error hrefused (by omega)
        exact .stale _ hstale
      | filled _ k hh ht hread hf =>
        obtain ⟨n, hreached, -⟩ := hready.scan hrecords hh ht hread
        exact .done _ _ n hh hreached (Or.inl hf)
      | enough _ hcaught hb =>
        obtain ⟨hreached, -⟩ := hready.catchUp hrecords hcaught
        exact .done _ _ _ (hcaught.head_le hrecords.head_le) hreached (Or.inr ⟨rfl, hb⟩)
  | parked f₀ f₁ w watch position b' he ho =>
    obtain ⟨c, hparks⟩ := ho.parks
    have hl := hparks.found
    rw [hfound _ _ he] at hl
    cases hl
    obtain ⟨hreached, hfull⟩ := hready.catchUp hrecords hparks.caught
    have hposition : position = (past r.key).length := by
      rw [hparks.position, htail]
      omega
    subst hposition
    refine .parked _ watch b' (hparks.caught.head_le hrecords.head_le) (Table.get?_set_self _ _ _) ?_ hreached hfull
    rw [hparks.watch]
    exact hparks.standing

/-- a reader whose journal was torn down is told so at its next poll -/
theorem poll_cancelled (h : f.Sound past) {watch : Watch} (hjob : f.jobs.get? id = some (.reader r))
    (hp : r.parked = some watch) (hcancelled : f.waits.isCancelled watch.waiter = true) :
    (f.poll id).2 = some (.finished (.error (.destroyed r.key.ns.object r.key.part))) := by
  have hwatching := h.watching id r watch hjob hp
  obtain ⟨f', p, heq, hpolled⟩ := poll_polled h.history.ringed hjob
  rw [heq]
  have hwoken : ∀ f₀ w, Enrolled f r f₀ w → f₀ = f ∧ w = watch.waiter := by
    intro f₀ w he
    cases he with
    | woken watch' hp' _ =>
      rw [hp] at hp'
      cases hp'
      exact ⟨rfl, rfl⟩
    | first hn =>
      rw [hp] at hn
      cases hn
  cases hpolled with
  | asleep watch' hp' hasleep =>
    rw [hp] at hp'
    cases hp'
    rw [hwatching.cancelled hcancelled] at hasleep
    cases hasleep
  | ended f₀ f₁ w result he ho =>
    obtain ⟨rfl, rfl⟩ := hwoken f₀ w he
    cases ho with
    | dismissed _ => rw [hwatching.key]
    | denied _ hc _ =>
      rw [hcancelled] at hc
      cases hc
    | served _ _ _ hc _ _ =>
      rw [hcancelled] at hc
      cases hc
  | parked f₀ f₁ w watch' position b' he ho =>
    obtain ⟨rfl, rfl⟩ := hwoken f₀ w he
    obtain ⟨c, hparks⟩ := ho.parks
    have hc := hparks.standing
    rw [hcancelled] at hc
    cases hc

end Polls

end Feed

/-! ## A consumer -/

/-- the operation leaves the journals to the feed: it neither uses a container behind the feed's back nor cancels the
readers of a journal that stays -/
def Op.coordinated : Op ω β → Bool
  | .discard _ => false
  | .append .. => false
  | .cancel _ => false
  | _ => true

theorem announced_of_coordinated {op : Op ω β} (h : op.coordinated = true) : op.announced = true := by
  cases op with
  | discard key => cases h
  | append handle record now => cases h
  | _ => rfl

theorem tearsDown_of_dismisses {f : Feed β} {key : JournalKey} {op : Op ω β} (hop : op.coordinated = true)
    (h : op.dismisses f key = true) : op.tearsDown f key = true := by
  cases op with
  | destroy k => exact h
  | cancel k => cases hop
  | _ => cases h

/-- who consumes: the name of the calls, the journal, and what is kept of it -/
structure Subscriber (β : Type) where
  id : String
  key : JournalKey
  filter : Option (EventRecord → Bool)
  project : EventRecord → β

/-- the record passes the filter -/
def Subscriber.keeps (u : Subscriber β) (a : EventRecord) : Bool := u.filter.all fun p => p a

/-- where a consumer is: between two calls, in a call, or given up -/
inductive Phase where
  | idle
  | reading
  | failed (e : JournalError)
deriving DecidableEq, Repr

/-- a consumer in its feed, and what it is measured against -/
structure Consumption (β : Type) where
  feed : Feed β
  phase : Phase
  /-- where the next call starts -/
  next : Int
  /-- the batches returned so far, one after the other, with the sequences -/
  received : List (Int × β)
  /-- what was written to the journal since the subscription, until it was torn down -/
  written : List EventRecord
  /-- the journal was torn down since the subscription -/
  torn : Bool

/-- what happens to a consumer -/
inductive Move (ω β : Type) where
  /-- somebody else does something -/
  | other (op : Op ω β)
  /-- a call starts -/
  | call (minSize maxSize : ℕ)
  /-- the call is polled -/
  | poll

namespace Consumption

/-- polls the call; what it returns is received, and tells where the next call starts -/
def poll (u : Subscriber β) (c : Consumption β) : Consumption β :=
  match c.feed.poll u.id with
  | (feed, some (.finished (.ok b))) =>
    { c with feed, phase := .idle, next := b.next, received := c.received ++ b.kept.toList }
  | (feed, some (.finished (.error e))) => { c with feed, phase := .failed e }
  | (feed, _) => { c with feed }

def step (encode : ω → Except WireError Data) (u : Subscriber β) (c : Consumption β) : Move ω β → Consumption β
  | .other op =>
    { c with
      feed := (c.feed.step encode op).1
      written := if c.torn then c.written else c.written ++ (op.appended? encode c.feed u.key).toList
      torn := c.torn || op.tearsDown c.feed u.key }
  | .call minSize maxSize =>
    match c.phase, Batch.fresh minSize maxSize u.filter u.project with
    | .idle, .ok b => { c with feed := c.feed.startReader u.id u.key c.next b, phase := .reading }
    | _, _ => c
  | .poll =>
    match c.phase with
    | .reading => c.poll u
    | _ => c

def run (encode : ω → Except WireError Data) (u : Subscriber β) (c : Consumption β) (moves : List (Move ω β)) :
    Consumption β := moves.foldl (step encode u) c

/-- the call has been polled and waits -/
def registered (u : Subscriber β) (c : Consumption β) : Bool :=
  match c.feed.jobs.get? u.id with
  | some (.reader r) => r.parked.isSome
  | _ => false

/-- the consumer goes on, but has no registered call -/
def exposed (u : Subscriber β) (c : Consumption β) : Bool :=
  match c.phase with
  | .idle => true
  | .reading => !c.registered u
  | .failed _ => false

/-- others leave the calls to the consumer and the journals to the feed, and do not tear the journal down while the
consumer is exposed; the consumer asks for at least one record, and for no more than it can take -/
def allowed (u : Subscriber β) (c : Consumption β) : Move ω β → Bool
  | .other op => op.coordinated && decide (op.job? ≠ some u.id) && !(op.tearsDown c.feed u.key && c.exposed u)
  | .call minSize maxSize => 1 ≤ minSize && minSize ≤ maxSize
  | .poll => true

/-- every move is allowed when it is made -/
def allAllowed (encode : ω → Except WireError Data) (u : Subscriber β) : Consumption β → List (Move ω β) → Bool
  | _, [] => true
  | c, m :: moves => c.allowed u m && allAllowed encode u (c.step encode u m) moves

theorem allowed_other {u : Subscriber β} {c : Consumption β} {op : Op ω β} (h : c.allowed u (.other op) = true) :
    op.coordinated = true ∧ op.job? ≠ some u.id ∧ (c.exposed u = true → op.tearsDown c.feed u.key = false) := by
  simp only [allowed, Bool.and_eq_true, decide_eq_true_eq, Bool.not_eq_true', Bool.and_eq_false_iff] at h
  obtain ⟨⟨hop, hjob⟩, htorn⟩ := h
  refine ⟨hop, hjob, fun hexposed => ?_⟩
  rcases htorn with htorn | hcovered
  · exact htorn
  · rw [hexposed] at hcovered
    cases hcovered

/-! ## The invariant -/

/-- what has been received is what was written under the first `n` sequences from `first` on -/
structure Received (u : Subscriber β) (first : Int) (c : Consumption β) (n : ℕ) : Prop where
  next : c.next = first + n
  bound : n ≤ c.written.length
  items : c.received.map Prod.snd = ((c.written.take n).filter u.keeps).map u.project
  sequences : c.received.map Prod.fst =
    ((List.range n).filter fun i => c.written[i]?.any u.keeps).map fun i : ℕ => first + i

/-- how a call can fail: the journal was torn down, or a record that was not visited is no longer retained -/
inductive Failure (u : Subscriber β) (first : Int) (c : Consumption β) : JournalError → Prop
  | destroyed (h : c.torn = true) : Failure u first c (.destroyed u.key.ns.object u.key.part)
  | stale (s head : Int) (hs : c.next ≤ s) (hh : s < head) (hw : head ≤ first + c.written.length) :
      Failure u first c (.staleSequence s head)

/-- a fresh batch of the consumer -/
def Wants (u : Subscriber β) (b : Batch EventRecord β) : Prop :=
  ∃ minSize maxSize, 1 ≤ minSize ∧ Batch.fresh minSize maxSize u.filter u.project = .ok b

open Feed

/-- where the call of a consumer stands -/
inductive Standing (u : Subscriber β) (first : Int) (c : Consumption β) (past : List EventRecord) : Prop
  | idle (hp : c.phase = .idle) (ht : c.torn = false)
  | started (b : Batch EventRecord β) (hp : c.phase = .reading) (ht : c.torn = false) (hb : Wants u b)
      (hjob : c.feed.jobs.get? u.id = some (.reader ⟨u.key, c.next, b, none⟩))
  | parked (b b' : Batch EventRecord β) (position : Int) (watch : Watch) (hp : c.phase = .reading) (hb : Wants u b)
      (hjob : c.feed.jobs.get? u.id = some (.reader ⟨u.key, position, b', some watch⟩))
      (ht : c.feed.waits.isCancelled watch.waiter = c.torn)
      (hs : c.torn = false → Reached past c.next b position b' ∧ b'.full = false)
  | failed (e : JournalError) (hp : c.phase = .failed e) (he : Failure u first c e)

/-- what holds of a consumer throughout -/
structure Consuming (u : Subscriber β) (base : List EventRecord) (c : Consumption β)
    (past : JournalKey → List EventRecord) : Prop where
  sound : c.feed.Sound past
  registered : c.feed.registered = true
  /-- the journal goes on from where it was at the subscription -/
  live : c.torn = false → past u.key = base ++ c.written ∧ ∃ d, c.feed.store.live? u.key = some d
  attentive : c.phase = .reading → c.feed.Attentive u.id
  received : ∃ n, Received u base.length c n
  standing : Standing u base.length c (past u.key)

section Invariant

variable {u : Subscriber β} {base : List EventRecord} {c c' : Consumption β} {past : JournalKey → List EventRecord}

/-! ## What is received -/

/-- what is written later does not change what has been received -/
theorem Received.extend {first : Int} {n : ℕ} (h : Received u first c n) (hnext : c'.next = c.next)
    (hreceived : c'.received = c.received) {more : List EventRecord} (hwritten : c'.written = c.written ++ more) :
    Received u first c' n := by
  have hbound := h.bound
  refine ⟨hnext.trans h.next, ?_, ?_, ?_⟩
  · rw [hwritten, List.length_append]
    omega
  · rw [hreceived, hwritten, List.take_append_of_le_length hbound]
    exact h.items
  · rw [hreceived, h.sequences, hwritten]
    congr 1
    refine List.filter_congr fun i hi => ?_
    rw [List.getElem?_append_left (lt_of_lt_of_le (List.mem_range.1 hi) hbound)]

theorem Received.moved {first : Int} {n : ℕ} (h : Received u first c n) (hnext : c'.next = c.next)
    (hreceived : c'.received = c.received) (hwritten : c'.written = c.written) : Received u first c' n :=
  h.extend hnext hreceived (hwritten.trans (List.append_nil _).symm)

theorem Failure.extend {first : Int} {e : JournalError} (h : Failure u first c e) (hnext : c'.next = c.next)
    (htorn : c.torn = true → c'.torn = true) {more : List EventRecord} (hwritten : c'.written = c.written ++ more) :
    Failure u first c' e := by
  cases h with
  | destroyed ht => exact .destroyed (htorn ht)
  | stale s head hs hh hw =>
    refine .stale s head (by rw [hnext]; exact hs) hh ?_
    rw [hwritten, List.length_append]
    push_cast
    omega

theorem Standing.of_idle {first : Int} {past : List EventRecord} (h : Standing u first c past) (hp : c.phase = .idle) :
    c.torn = false := by
  cases h with
  | idle _ ht => exact ht
  | started _ hp' => rw [hp] at hp'; cases hp'
  | parked _ _ _ _ hp' => rw [hp] at hp'; cases hp'
  | failed _ hp' => rw [hp] at hp'; cases hp'

theorem Standing.of_failed {first : Int} {past : List EventRecord} {e : JournalError} (h : Standing u first c past)
    (hp : c.phase = .failed e) : Failure u first c e := by
  cases h with
  | idle hp' => rw [hp] at hp'; cases hp'
  | started _ hp' => rw [hp] at hp'; cases hp'
  | parked _ _ _ _ hp' => rw [hp] at hp'; cases hp'
  | failed e' hp' he =>
    rw [hp] at hp'
    cases hp'
    exact he

theorem Wants.terms {b : Batch EventRecord β} (h : Wants u b) :
    b.keeps = u.keeps ∧ b.project = u.project ∧ b.kept = #[] ∧ b.full = false ∧ 1 ≤ b.minSize ∧
      b.minSize ≤ b.maxSize := by
  obtain ⟨minSize, maxSize, hpos, hb⟩ := h
  obtain ⟨rfl, -, hle⟩ := Batch.fresh_eq hb
  refine ⟨?_, rfl, rfl, Batch.full_fresh hb, hpos, hle⟩
  funext a
  simp only [Batch.keeps, Subscriber.keeps]
  cases u.filter <;> rfl

/-- the sequences of a batch that continues where the records written before it end -/
theorem sequences_shift (base written : List EventRecord) (keeps : EventRecord → Bool) (n k : ℕ) :
    ((List.range' (base.length + n) k).filter fun t => (base ++ written)[t]?.any keeps).map Int.ofNat =
      (((List.range k).map (n + ·)).filter fun i => written[i]?.any keeps).map fun i : ℕ => (base.length : Int) + i := by
  have hshift : List.range' (base.length + n) k = ((List.range k).map (n + ·)).map (base.length + ·) := by
    rw [← List.range'_eq_map_range, List.map_add_range']
  rw [hshift, List.filter_map, List.map_map]
  congr 1
  refine List.filter_congr fun i hi => ?_
  have hright : (base ++ written)[base.length + i]? = written[i]? := by
    rw [List.getElem?_append_right (Nat.le_add_right _ _), Nat.add_sub_cancel_left]
  simp only [Function.comp, hright]

/-- a batch that continues where the consumer is adds what was written from there up to its end -/
theorem Received.grow {n m : ℕ} {b result : Batch EventRecord β} (h : Received u base.length c n) (hb : Wants u b)
    (hs : Batch.Stretch (base ++ c.written) b (base.length + n) m result) (hlt : base.length + n < m)
    (hnext : c'.next = result.next) (hreceived : c'.received = c.received ++ result.kept.toList)
    (hwritten : c'.written = c.written) : Received u base.length c' (m - base.length) := by
  obtain ⟨hkeeps, hproject, hempty, -⟩ := hb.terms
  have hbound := hs.bound
  rw [List.length_append] at hbound
  obtain ⟨k, hk⟩ := Nat.exists_eq_add_of_lt hlt
  have hlen : m - base.length = n + (k + 1) := by omega
  have hcount : m - (base.length + n) = k + 1 := by omega
  refine ⟨?_, ?_, ?_, ?_⟩
  · rw [hnext, hs.next hlt, hlen]
    omega
  · rw [hwritten]
    omega
  · have hitems := hs.items hempty
    rw [Batch.items, hcount, hkeeps, hproject, ← List.drop_drop, List.drop_left] at hitems
    rw [hreceived, hwritten, hlen, List.map_append, h.items, hitems,
      List.take_add (i := n) (j := k + 1), List.filter_append, List.map_append]
  · have hsequences := hs.sequences hempty
    rw [Batch.sequences, hcount, hkeeps, sequences_shift] at hsequences
    rw [hreceived, hwritten, hlen, List.map_append, h.sequences, hsequences,
      List.range_add (n := n) (m := k + 1), List.filter_append, List.map_append]

/-! ## The moves of others -/

/-- under a registered call that was not cancelled, tearing down the journal and cancelling the call are one -/
theorem cancelled_step (encode : ω → Except WireError Data) {f : Feed β} (h : f.Sound past) {op : Op ω β}
    (hop : op.coordinated = true) {id : String} {r : Reader β} {watch : Watch} (hp : f.Parked id r watch)
    (hstand : f.waits.isCancelled watch.waiter = false) :
    (f.step encode op).1.waits.isCancelled watch.waiter = op.tearsDown f r.key := by
  have hcur := h.current hp.job hp.parked hstand
  have hkeeps := keepsJournals_of_announced (announced_of_coordinated hop)
  have hsame : op.dismisses f r.key = op.tearsDown f r.key := by
    rw [Bool.eq_iff_iff]
    exact ⟨tearsDown_of_dismisses hop, dismisses_of_tearsDown hkeeps⟩
  rw [(step_signals encode h.keyed op watch.waiter).cancelled, hstand, (h.watching id r watch hp.job hp.parked).key, hsame]
  simp [hcur]

/-- the journal goes on while others leave it there -/
theorem live_step (encode : ω → Except WireError Data) (h : Consuming u base c past) (ht : c.torn = false) {op : Op ω β}
    (htorn : op.tearsDown c.feed u.key = false) :
    op.record encode c.feed u.key (past u.key) = base ++ (c.written ++ (op.appended? encode c.feed u.key).toList) ∧
      ∃ d, (c.feed.step encode op).1.store.live? u.key = some d := by
  obtain ⟨hpast, d, hd⟩ := h.live ht
  obtain ⟨d', hd', -, -⟩ := h.sound.stays htorn hd
  refine ⟨?_, d', hd'⟩
  rw [Op.record, htorn, if_neg Bool.false_ne_true, hpast, List.append_assoc]

theorem consuming_other (encode : ω → Except WireError Data) (h : Consuming u base c past) {op : Op ω β}
    (hallowed : c.allowed u (.other op) = true) :
    Consuming u base (c.step encode u (.other op)) fun key => op.record encode c.feed key (past key) := by
  obtain ⟨hop, hjob, hexposed⟩ := allowed_other hallowed
  have hannounced := announced_of_coordinated hop
  have hwritten : ∃ more, (c.step encode u (.other op)).written = c.written ++ more := by
    cases ht : c.torn with
    | true => exact ⟨[], by simp [step, ht]⟩
    | false => exact ⟨_, by simp only [step, ht]; rfl⟩
  obtain ⟨more, hmore⟩ := hwritten
  have hsame : ∀ r, c.feed.jobs.get? u.id = some (.reader r) →
      (c.feed.step encode op).1.jobs.get? u.id = some (.reader r) :=
    fun r => (step_reader_of_ne encode h.sound.keyed hjob r).2
  refine ⟨sound_step encode h.sound op, registered_step encode h.sound.keyed h.registered op, ?_, ?_, ?_, ?_⟩
  · intro ht
    obtain ⟨ht, htorn⟩ := Bool.or_eq_false_iff.1 ht
    have hlive := live_step encode h ht htorn
    simpa only [step, ht, Bool.false_eq_true, if_false] using hlive
  · intro hp
    exact attentive_step h.sound (h.attentive hp) hannounced
  · obtain ⟨n, hn⟩ := h.received
    exact ⟨n, hn.extend rfl rfl hmore⟩
  · cases h.standing with
    | idle hp ht =>
      have htorn := hexposed (by simp only [exposed, hp])
      exact .idle hp (by simp [step, ht, htorn])
    | started b hp ht hb hr =>
      have htorn := hexposed (by simp only [exposed, registered, hp, hr]; rfl)
      exact .started b hp (by simp [step, ht, htorn]) hb (hsame _ hr)
    | parked b b' position watch hp hb hr ht hs =>
      refine .parked b b' position watch hp hb (hsame _ hr) ?_ ?_
      · cases htc : c.torn with
        | false =>
          rw [htc] at ht
          simpa [step, htc] using cancelled_step encode h.sound hop ⟨hr, rfl⟩ ht
        | true =>
          rw [htc] at ht
          have hcancelled := (step_signals encode h.sound.keyed op watch.waiter).cancelled
          rw [ht, Bool.true_or] at hcancelled
          simpa [step, htc] using hcancelled
      · intro ht'
        obtain ⟨htc, htorn⟩ := Bool.or_eq_false_iff.1 ht'
        obtain ⟨hreached, hfull⟩ := hs htc
        rw [Op.record, htorn, if_neg Bool.false_ne_true]
        exact ⟨hreached.extend _, hfull⟩
    | failed e hp he =>
      refine .failed e hp (he.extend rfl ?_ hmore)
      intro ht
      simp [step, ht]

/-! ## The moves of the consumer -/

/-- the journal goes on while nobody tears it down -/
theorem live_of_enlists (encode : ω → Except WireError Data) (h : Consuming u base c past) (ht : c.torn = false)
    (op : Op ω β) (htorn : op.tearsDown c.feed u.key = false) :
    past u.key = base ++ c.written ∧ ∃ d, (c.feed.step encode op).1.store.live? u.key = some d := by
  obtain ⟨hpast, d, hd⟩ := h.live ht
  obtain ⟨d', hd', -, -⟩ := h.sound.stays htorn hd
  exact ⟨hpast, d', hd'⟩

theorem sound_of_enlists (encode : ω → Except WireError Data) {f : Feed β} (h : f.Sound past) (op : Op ω β)
    (hop : op.enlists = true) : (f.step encode op).1.Sound past := by
  have hstep := sound_step encode h op
  simp only [record_of_enlists hop] at hstep
  exact hstep

theorem consuming_call (encode : ω → Except WireError Data) (h : Consuming u base c past) {minSize maxSize : ℕ}
    (hallowed : c.allowed u (.call minSize maxSize : Move ω β) = true) :
    Consuming u base (c.step encode u (.call minSize maxSize)) past := by
  have hpos : 1 ≤ minSize := by
    simp only [allowed, Bool.and_eq_true, decide_eq_true_eq] at hallowed
    exact hallowed.1
  have hstays : c.step encode u (.call minSize maxSize) = c →
      Consuming u base (c.step encode u (.call minSize maxSize)) past := by
    intro hstep
    rw [hstep]
    exact h
  cases hphase : c.phase with
  | reading => exact hstays (by simp [step, hphase])
  | failed e => exact hstays (by simp [step, hphase])
  | idle =>
    cases hb : Batch.fresh minSize maxSize u.filter u.project with
    | error e => exact hstays (by simp [step, hphase, hb])
    | ok b =>
      have hstep : c.step encode u (.call minSize maxSize) =
          { c with feed := c.feed.startReader u.id u.key c.next b, phase := .reading } := by
        simp [step, hphase, hb]
      have hjob : (c.feed.startReader u.id u.key c.next b).jobs.get? u.id = some (.reader ⟨u.key, c.next, b, none⟩) :=
        Table.get?_set_self _ _ _
      have ht : c.torn = false := h.standing.of_idle hphase
      rw [hstep]
      refine ⟨sound_of_enlists encode h.sound (.startReader u.id u.key c.next b) rfl,
        registered_step encode h.sound.keyed h.registered (.startReader u.id u.key c.next b), ?_, ?_, ?_, ?_⟩
      · intro _
        exact live_of_enlists encode h ht (.startReader u.id u.key c.next b) rfl
      · intro _ r watch hparked
        have hr := hparked.job
        rw [hjob] at hr
        cases hr
        cases hparked.parked
      · obtain ⟨n, hn⟩ := h.received
        exact ⟨n, hn.moved rfl rfl rfl⟩
      · exact .started b rfl ht ⟨minSize, maxSize, hpos, hb⟩ hjob

/-- the feed after a poll of the call -/
structure Polled (u : Subscriber β) (base : List EventRecord) (c : Consumption β) (past : JournalKey → List EventRecord)
    (feed : Feed β) : Prop where
  sound : feed.Sound past
  registered : feed.registered = true
  live : c.torn = false → past u.key = base ++ c.written ∧ ∃ d, feed.store.live? u.key = some d
  attentive : feed.Attentive u.id

theorem polled_feed (encode : ω → Except WireError Data) (h : Consuming u base c past) (hp : c.phase = .reading) :
    Polled u base c past (c.feed.poll u.id).1 := by
  rw [← step_poll encode c.feed u.id]
  exact ⟨sound_of_enlists encode h.sound (.poll u.id) rfl, registered_step encode h.sound.keyed h.registered (.poll u.id),
    fun ht => live_of_enlists encode h ht (.poll u.id) rfl, attentive_step h.sound (h.attentive hp) rfl⟩

/-- a call whose journal is there, with the batch it started with -/
structure Running (u : Subscriber β) (c : Consumption β) (past : List EventRecord) (b : Batch EventRecord β)
    (r : Reader β) : Prop where
  job : c.feed.jobs.get? u.id = some (.reader r)
  key : r.key = u.key
  wants : Wants u b
  ready : Ready past c.next b r.position r.batch
  behind : c.next ≤ r.position
  bound : r.position ≤ past.length
  standing : ∀ watch, r.parked = some watch → c.feed.waits.isCancelled watch.waiter = false

/-- while the journal is there, the call is running -/
theorem Consuming.running (h : Consuming u base c past) (hp : c.phase = .reading) (ht : c.torn = false) :
    ∃ b r, Running u c (past u.key) b r := by
  obtain ⟨hpast, -⟩ := h.live ht
  cases h.standing with
  | idle hp' => rw [hp] at hp'; cases hp'
  | failed e hp' => rw [hp] at hp'; cases hp'
  | started b _ _ hb hjob =>
    obtain ⟨n, hn⟩ := h.received
    have hnext := hn.next
    have hbound := hn.bound
    refine ⟨b, _, hjob, rfl, hb, ready_start _ _ hb.terms.2.2.2.1, le_rfl, ?_, fun watch hparked => by cases hparked⟩
    rw [hpast, List.length_append]
    push_cast
    omega
  | parked b b' position watch _ hb hjob htc hs =>
    obtain ⟨hreached, hfull⟩ := hs ht
    have hready : Ready (past u.key) c.next b position b' := ⟨fun _ _ => hreached, hfull⟩
    obtain ⟨s, n, hfirst, hn, hstretch⟩ := hreached
    have hle := hstretch.le
    have hbound := hstretch.bound
    refine ⟨b, _, hjob, rfl, hb, hready, ?_, ?_, ?_⟩
    · show c.next ≤ position
      omega
    · show position ≤ (past u.key).length
      omega
    · intro watch' hparked
      cases hparked
      rw [htc, ht]

/-- what a poll of a running call comes to -/
theorem Running.went (h : Consuming u base c past) {d : Container EventRecord}
    (hd : c.feed.store.live? u.key = some d) {b : Batch EventRecord β} {r : Reader β}
    (hr : Running u c (past u.key) b r) : Went c.feed u.id r d (past u.key) c.next b (c.feed.poll u.id) := by
  obtain ⟨hjob, hkey, -, hready, -, hbound, hstand⟩ := hr
  rw [← hkey] at hd hready hbound ⊢
  exact poll_went h.sound h.registered hd hjob hready hbound hstand

/-- a call whose journal was torn down was cancelled with it, and is told so -/
theorem Consuming.cancelled (h : Consuming u base c past) (hp : c.phase = .reading) (ht : c.torn = true) :
    (c.feed.poll u.id).2 = some (.finished (.error (.destroyed u.key.ns.object u.key.part))) := by
  cases h.standing with
  | idle hp' => rw [hp] at hp'; cases hp'
  | failed e hp' => rw [hp] at hp'; cases hp'
  | started _ _ ht' => rw [ht] at ht'; cases ht'
  | parked b b' position watch _ _ hjob htc _ => exact poll_cancelled h.sound hjob rfl (htc.trans ht)

theorem consuming_poll (encode : ω → Except WireError Data) (h : Consuming u base c past) :
    Consuming u base (c.step encode u .poll) past := by
  have hstays : c.step encode u .poll = c → Consuming u base (c.step encode u .poll) past := by
    intro hstep
    rw [hstep]
    exact h
  cases hphase : c.phase with
  | idle => exact hstays (by simp [step, hphase])
  | failed e => exact hstays (by simp [step, hphase])
  | reading =>
    have hstep : c.step encode u .poll = c.poll u := by simp [step, hphase]
    rw [hstep]
    have hpolled := polled_feed encode h hphase
    obtain ⟨n, hn⟩ := h.received
    cases ht : c.torn with
    | true =>
      have hcancelled := h.cancelled hphase ht
      generalize hp : c.feed.poll u.id = p at hpolled hcancelled
      obtain ⟨feed, q⟩ := p
      cases hcancelled
      simp only [poll, hp]
      refine ⟨hpolled.sound, hpolled.registered, hpolled.live, ?_, ⟨n, hn.moved rfl rfl rfl⟩,
        .failed _ rfl (.destroyed ht)⟩
      intro hno
      cases hno
    | false =>
      obtain ⟨hpast, d, hd⟩ := h.live ht
      obtain ⟨b, r, hr⟩ := h.running hphase ht
      have hwent := hr.went h hd
      generalize hp : c.feed.poll u.id = p at hpolled hwent
      cases hwent with
      | asleep watch hparked hready =>
        simp only [poll, hp]
        exact h
      | stale feed hs =>
        have hrecords := h.sound.history.live hd
        have hhead := hrecords.head_le
        have htail := hrecords.tail
        rw [hpast, List.length_append] at htail
        simp only [poll, hp]
        refine ⟨hpolled.sound, hpolled.registered, hpolled.live, ?_,
          ⟨n, hn.moved rfl rfl rfl⟩, .failed _ rfl (.stale _ _ hr.behind hs ?_)⟩
        · intro hno
          cases hno
        · simp only
          push_cast at htail
          omega
      | done feed result m hh hreached hlast =>
        obtain ⟨s, m', hs, hm, hstretch⟩ := hreached
        obtain rfl : m = m' := by exact_mod_cast hm
        have hnext := hn.next
        obtain rfl : s = base.length + n := by omega
        have hle := hstretch.le
        obtain ⟨-, -, hempty, hroom, hpos, hmin⟩ := hr.wants.terms
        -- a call that asks for something does not return without having visited a record
        have hlt : base.length + n < m := by
          rcases Nat.lt_or_eq_of_le hle with hlt | heq
          · exact hlt
          · subst heq
            have hsame := hstretch.same
            rcases hlast with hfull | ⟨-, hsat⟩
            · rw [hsame, hroom] at hfull
              cases hfull
            · rw [hsame] at hsat
              simp only [Batch.satisfied, hempty, decide_eq_true_eq, List.size_toArray, List.length_nil] at hsat
              omega
        rw [hpast] at hstretch
        simp only [poll, hp]
        refine ⟨hpolled.sound, hpolled.registered, hpolled.live, ?_,
          ⟨m - base.length, hn.grow hr.wants hstretch hlt rfl rfl rfl⟩, .idle rfl ht⟩
        intro hno
        cases hno
      | parked feed watch b' hh hjob hstand hreached hfull =>
        rw [hr.key] at hjob
        simp only [poll, hp]
        refine ⟨hpolled.sound, hpolled.registered, hpolled.live, fun _ => hpolled.attentive,
          ⟨n, hn.moved rfl rfl rfl⟩, ?_⟩
        exact .parked b b' _ watch hphase hr.wants hjob (hstand.trans ht.symm) fun _ => ⟨hreached, hfull⟩

/-- **Every allowed move keeps the invariant.** -/
theorem consuming_step (encode : ω → Except WireError Data) (h : Consuming u base c past) {m : Move ω β}
    (hm : c.allowed u m = true) : ∃ past', Consuming u base (c.step encode u m) past' := by
  cases m with
  | other op => exact ⟨_, consuming_other encode h hm⟩
  | call minSize maxSize => exact ⟨past, consuming_call encode h hm⟩
  | poll => exact ⟨past, consuming_poll encode h⟩

theorem consuming_run (encode : ω → Except WireError Data) (h : Consuming u base c past) {moves : List (Move ω β)}
    (hmoves : allAllowed encode u c moves = true) : ∃ past', Consuming u base (c.run encode u moves) past' := by
  induction moves generalizing c past with
  | nil => exact ⟨past, h⟩
  | cons m moves ih =>
    obtain ⟨hm, hrest⟩ := Bool.and_eq_true_iff.1 hmoves
    obtain ⟨past', h'⟩ := consuming_step encode h hm
    exact ih h' hrest

/-! ## How a call ends -/

/-- a call whose journal was torn down is told so at its next poll -/
theorem poll_torn (h : Consuming u base c past) (hp : c.phase = .reading) (ht : c.torn = true) :
    (c.poll u).phase = .failed (.destroyed u.key.ns.object u.key.part) := by
  have hcancelled := h.cancelled hp ht
  generalize hq : c.feed.poll u.id = q at hcancelled
  obtain ⟨feed, progress⟩ := q
  cases hcancelled
  simp only [poll, hq]

/-- a call whose next record is no longer retained is told so at its next poll; it does not sleep over that -/
theorem poll_stale (h : Consuming u base c past) (hp : c.phase = .reading)
    {d : Container EventRecord} (hd : c.feed.store.live? u.key = some d) {b : Batch EventRecord β} {r : Reader β}
    (hr : Running u c (past u.key) b r) (hstale : r.position < d.head) :
    (c.poll u).phase = .failed (.staleSequence r.position d.head) := by
  have hkey := hr.key
  have hwent := hr.went h hd
  generalize hq : c.feed.poll u.id = q at hwent
  cases hwent with
  | asleep watch hparked hready =>
    obtain ⟨d', hd', hposition⟩ := h.attentive hp r watch ⟨hr.job, hparked⟩ (hr.standing watch hparked)
    rw [hkey, hd] at hd'
    cases hd'
    have hend := hposition hready
    have hhead := (h.sound.history.live hd).head_le
    omega
  | stale feed _ => simp only [poll, hq]
  | done _ _ _ hh => omega
  | parked _ _ _ hh => omega

end Invariant

/-! ## From the subscription on -/

/-- a consumer that has just subscribed and was told the newest sequence -/
def subscribed (feed : Feed β) (newest : Int) : Consumption β := ⟨feed, .idle, newest + 1, [], [], false⟩

theorem subscribe_ok {f f' : Feed β} {key : JournalKey} {oldest newest : Int}
    (h : f.subscribe key = (f', .ok (oldest, newest))) :
    f'.registered = true ∧ ∃ d, f'.store.live? key = some d ∧ newest = d.tail := by
  generalize hp : f.container? key = p
  rcases p with ⟨f₁, e | (_ | d)⟩
  · simp [Feed.subscribe, Feed.oldest, query, container, hp] at h
  · simp [Feed.subscribe, Feed.oldest, query, container, hp] at h
  · obtain ⟨hr, hlive, -⟩ := live_of_container? hp
    rw [subscribe_found hp] at h
    cases h
    exact ⟨hr, d, hlive, rfl⟩

theorem consuming_subscribed (encode : ω → Except WireError Data) {f f' : Feed β}
    {past : JournalKey → List EventRecord} (h : f.Sound past) {u : Subscriber β} {oldest newest : Int}
    (hsub : f.subscribe u.key = (f', .ok (oldest, newest))) :
    Consuming u (past u.key) (subscribed f' newest) past ∧ newest + 1 = (past u.key).length := by
  obtain ⟨hregistered, d, hd, hnewest⟩ := subscribe_ok hsub
  have hsound : f'.Sound past := by
    have hstep := sound_step encode h (.subscribe u.key)
    simp only [Feed.step, answer_fst, hsub] at hstep
    simpa [Op.record, Op.tearsDown, Op.appended?] using hstep
  have htail := (hsound.history.live hd).tail
  have hlength : newest + 1 = (past u.key).length := by omega
  refine ⟨⟨hsound, hregistered, ?_, ?_, ⟨0, ?_, Nat.zero_le _, rfl, rfl⟩, .idle rfl rfl⟩, hlength⟩
  · intro _
    exact ⟨(List.append_nil _).symm, d, hd⟩
  · intro hp
    cases hp
  · rw [subscribed, hlength]
    exact (add_zero _).symm

/-- **A journal is consumed exactly once.** From a subscription on, whatever is done between the polls:
- what has been received is what was written since, filtered and projected, up to where the consumer is, under
  consecutive sequences: nothing lost, repeated or reordered;
- a call fails only because its journal was torn down, or because a record that it has not visited is gone;
- a call whose journal was torn down fails at its next poll, and so does one whose next record is gone. -/
theorem consumed_exactly_once (encode : ω → Except WireError Data) (resolver : Resolver) (registered : Bool)
    (before : List (Op ω β)) (u : Subscriber β) (feed : Feed β) (oldest newest : Int)
    (hsub : (Feed.run encode (init resolver registered) before).1.subscribe u.key = (feed, .ok (oldest, newest)))
    (moves : List (Move ω β)) (hmoves : allAllowed encode u (subscribed feed newest) moves = true) :
    let c := (subscribed feed newest).run encode u moves
    (∃ n, Received u (newest + 1) c n) ∧
    (∀ e, c.phase = .failed e → Failure u (newest + 1) c e) ∧
    (c.phase = .reading → c.torn = true →
      (c.step encode u .poll).phase = .failed (.destroyed u.key.ns.object u.key.part)) ∧
    (c.phase = .reading → c.torn = false → ∃ r d, c.feed.jobs.get? u.id = some (.reader r) ∧
      c.feed.store.live? u.key = some d ∧ c.next ≤ r.position ∧
      (r.position < d.head → (c.step encode u .poll).phase = .failed (.staleSequence r.position d.head))) := by
  intro c
  have hinit : (init resolver registered : Feed β).Sound fun _ => [] := sound_init resolver registered
  obtain ⟨hstart, hfirst⟩ := consuming_subscribed encode (sound_run encode hinit before) hsub
  obtain ⟨past, h⟩ := consuming_run encode hstart hmoves
  have hpoll : c.phase = .reading → c.step encode u .poll = c.poll u := fun hp => by simp only [step, hp]
  rw [hfirst]
  refine ⟨h.received, ?_, ?_, ?_⟩
  · intro e hp
    exact h.standing.of_failed hp
  · intro hp ht
    rw [hpoll hp]
    exact poll_torn h hp ht
  · intro hp ht
    obtain ⟨b, r, hr⟩ := h.running hp ht
    obtain ⟨-, d, hd⟩ := h.live ht
    refine ⟨r, d, hr.job, hd, hr.behind, fun hstale => ?_⟩
    rw [hpoll hp]
    exact poll_stale h hp hd hr hstale

/-- consumes the orders, and leaves out those of entry 2 -/
def orderClerk : Subscriber Data := ⟨"c", ordersKey, some fun a => a.key ≠ [2], Change.key⟩

/-- two calls return, the third is parked when the orders are torn down -/
def clerkMoves : List (Move Data Data) :=
  [.call 1 2, .poll, .other (addOrder 1), .other (addOrder 2), .poll, .other (.cleanup ordersKey 7), .call 1 1,
    .other (addOrder 3), .poll, .call 1 1, .poll, .other (.destroy ordersKey)]

theorem consumed_exactly_once_orders :
    let f : Feed Data := (Feed.run .ok (init smallResolver true) [addOrder 0]).1
    let start := subscribed (f.subscribe ordersKey).1 0
    let c := start.run .ok orderClerk clerkMoves
    (f.subscribe ordersKey).2 = .ok (0, 0) ∧ allAllowed .ok orderClerk start clerkMoves = true ∧
      c.phase = .reading ∧ c.torn = true ∧ c.received = [(1, [1]), (3, [3])] ∧ (∃ n, Received orderClerk 1 c n) ∧
      (c.step .ok orderClerk (.poll : Move Data Data)).phase = .failed (.destroyed "orders" 0) := by
  intro f start c
  have hsub : (f.subscribe ordersKey).2 = .ok (0, 0) := by decide +kernel
  have hallowed : allAllowed .ok orderClerk start clerkMoves = true := by decide +kernel
  have hphase : c.phase = .reading := by decide +kernel
  have htorn : c.torn = true := by decide +kernel
  have hreceived : c.received = [(1, [1]), (3, [3])] := by decide +kernel
  obtain ⟨hn, -, hfails, -⟩ := consumed_exactly_once .ok smallResolver true [addOrder 0] orderClerk
    (f.subscribe ordersKey).1 0 0 (Prod.ext rfl hsub) clerkMoves hallowed
  exact ⟨hsub, hallowed, hphase, htorn, hreceived, hn, hfails hphase htorn⟩

end Consumption

end Changefeed
