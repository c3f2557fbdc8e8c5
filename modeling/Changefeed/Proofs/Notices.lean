/-
What a watch is told. A job that watches for a named waiter is told at a poll that the waiter's key was woken or cancelled
exactly if that happened since the watch was taken, polled or not in between; a watch taken after the waiter was cancelled is
never told anything, though others wait under the key by then and are woken. The registry finds channels by key and the
waiter holds its own; the two are the same channel until the key is cancelled, and that is told as well.

Results:
- `watches_step`: the job goes on watching, unless it is ended or told;
- `noticed_run`: the channel of a registered waiter was woken in a run exactly if its key was, and one of a cancelled waiter
  was not;
- `notices_exact`: what every later poll of the job gives.
-/
import Changefeed.Proofs.Registrations

namespace Changefeed

variable {ω β : Type}

/-- the operation ends neither the job `id` nor the waiter `name` that it watches for -/
def Op.leavesWatch (id name : String) : Op ω β → Bool
  | .startReader id' .. => id' ≠ id
  | .startWatch id' _ => id' ≠ id
  | .drop id' => id' ≠ id
  | .addWaiter name' _ => name' ≠ name
  | .dropWaiter name' => name' ≠ name
  | _ => true

namespace Feed

/-- the job watches for a named waiter, since the watch was taken -/
structure Watches (f : Feed β) (id name : String) (watch : Watch) : Prop where
  job : ∃ polled, f.jobs.get? id = some (.watch name watch polled)
  owner : f.waiters.get? name = some watch.waiter

/-- the run woke those who wait under a key -/
def RousedIn (encode : ω → Except WireError Data) (f : Feed β) (key : JournalKey) (ops : List (Op ω β)) : Prop :=
  ∃ pre op post, ops = pre ++ op :: post ∧ op.rouses encode (f.run encode pre).1 key = true

section Watching

variable {encode : ω → Except WireError Data} {f : Feed β} {past : JournalKey → List EventRecord} {key : JournalKey}
  {id name : String} {watch : Watch} {w : Waiter} {op : Op ω β} {ops : List (Op ω β)}

theorem not_rousedIn_nil : ¬ RousedIn (ω := ω) encode f key [] := by
  rintro ⟨pre, op, post, hsplit, -⟩
  simp at hsplit

theorem rousedIn_cons : RousedIn encode f key (op :: ops) ↔
    op.rouses encode f key = true ∨ RousedIn encode (f.step encode op).1 key ops := by
  constructor
  · rintro ⟨pre, op', post, hsplit, hrouses⟩
    cases pre with
    | nil =>
      cases hsplit
      exact Or.inl hrouses
    | cons _ pre =>
      cases hsplit
      exact Or.inr ⟨pre, op', post, rfl, hrouses⟩
  · rintro (hrouses | ⟨pre, op', post, rfl, hrouses⟩)
    · exact ⟨[], op, ops, rfl, hrouses⟩
    · exact ⟨op :: pre, op', post, rfl, hrouses⟩

/-! ## The job goes on watching -/

/-- a job that watches is told as soon as its watch is ready -/
theorem Watches.poll (h : f.Watches id name watch) :
    (f.poll id).2 = some (if f.waits.ready watch = true then .notified else .pending) := by
  obtain ⟨polled, hjob⟩ := h.job
  simp only [Feed.poll, hjob]
  split <;> rfl

theorem Watches.notified_iff (h : f.Watches id name watch) :
    (f.poll id).2 = some .notified ↔ f.waits.ready watch = true := by
  rw [h.poll]
  cases f.waits.ready watch <;> simp

theorem Watches.pending_iff (h : f.Watches id name watch) :
    (f.poll id).2 = some .pending ↔ f.waits.ready watch = false := by
  rw [h.poll]
  cases f.waits.ready watch <;> simp

theorem Watches.registration (h : f.Watches id name watch) : f.registration? (.named name) = some watch.waiter := h.owner

/-- the jobs of other waiters stay when a waiter goes -/
theorem watch_dropWaiter {name' : String} {polled : Bool} (hjob : f.jobs.get? id = some (.watch name watch polled))
    (hne : name' ≠ name) : (f.dropWaiter name').1.jobs.get? id = some (.watch name watch polled) := by
  rcases dropWaiter_jobs f name' with heq | heq
  · rwa [heq]
  · rw [heq, Table.get?_foldl_erase, if_neg, hjob]
    intro horphan
    obtain ⟨_, _, hjob'⟩ := mem_orphans.1 horphan
    rw [hjob] at hjob'
    cases hjob'
    exact hne rfl

/-- **The job goes on watching**, until it is ended, or polled when its watch is ready. -/
theorem watches_step (encode : ω → Except WireError Data) (h : f.Sound past) (hw : f.Watches id name watch)
    (hop : op.leavesWatch id name = true) (hpending : op = .poll id → (f.poll id).2 ≠ some .notified) :
    (f.step encode op).1.Watches id name watch := by
  obtain ⟨polled, hjob⟩ := hw.job
  have hother : op.waiter? ≠ some name := by
    intro hname
    cases op with
    | addWaiter name' k => exact of_decide_eq_true hop (Option.some.inj hname)
    | dropWaiter name' => exact of_decide_eq_true hop (Option.some.inj hname)
    | _ => cases hname
  refine ⟨?_, (step_waiter_of_ne encode h.keyed h.history.ringed hother).trans hw.owner⟩
  have haside : ∀ id', op.job? = some id' → id' ≠ id →
      ∃ polled, (f.step encode op).1.jobs.get? id = some (.watch name watch polled) :=
    fun id' hid hne => ⟨polled, ((step_aside encode f hid).jobs id (Ne.symm hne)).trans hjob⟩
  cases henlists : op.enlists with
  | false => exact ⟨polled, by rw [(step_apart encode h.keyed henlists).jobs, hjob]⟩
  | true =>
    cases op with
    | startReader id' k s b => exact haside id' rfl (of_decide_eq_true hop)
    | drop id' => exact haside id' rfl (of_decide_eq_true hop)
    | startWatch id' name' => exact haside id' rfl (of_decide_eq_true hop)
    | poll id' =>
      by_cases hid : id' = id
      · subst hid
        have hready : f.waits.ready watch = false := by
          simpa [hw.notified_iff] using hpending rfl
        refine ⟨true, ?_⟩
        rw [step_poll]
        simp [Feed.poll, hjob, hready]
      · exact haside id' rfl hid
    | addWaiter name' k => exact ⟨polled, watch_dropWaiter hjob (of_decide_eq_true hop)⟩
    | dropWaiter name' => exact ⟨polled, watch_dropWaiter hjob (of_decide_eq_true hop)⟩
    | _ => cases henlists

/-! ## What its channel hears -/

theorem wakeups_le_run (encode : ω → Except WireError Data) (h : f.Sound past) (ops : List (Op ω β)) (w : Waiter) :
    f.waits.wakeups w ≤ (f.run encode ops).1.waits.wakeups w := by
  induction ops generalizing f past with
  | nil => exact le_rfl
  | cons op ops ih =>
    have hone : f.waits.wakeups w ≤ (f.step encode op).1.waits.wakeups w := by
      rw [(step_signals encode h.keyed op w).wakeups]
      exact Nat.le_add_right _ _
    exact hone.trans (ih (sound_step encode h op))

/-- the channel of a waiter that is not cancelled hears every wake-up of its key, and nothing else -/
theorem wakeups_step (encode : ω → Except WireError Data) (h : f.Sound past) {holder : Holder}
    (hholder : f.registration? holder = some w) (hc : f.waits.isCancelled w = false) (op : Op ω β) :
    (f.step encode op).1.waits.wakeups w = f.waits.wakeups w + (op.rouses encode f w.key).toNat := by
  have hcur := (h.current_iff hholder).2 hc
  rw [(step_signals encode h.keyed op w).wakeups]
  cases op.rouses encode f w.key <;> simp [hcur]

/-- the channel of a cancelled waiter hears nothing -/
theorem wakeups_step_of_cancelled (encode : ω → Except WireError Data) (h : f.Sound past)
    (hc : f.waits.isCancelled w = true) (op : Op ω β) :
    (f.step encode op).1.waits.wakeups w = f.waits.wakeups w := by
  have hpast : ¬ f.waits.Current w := by
    intro hcur
    rw [h.enlisted.not_cancelled hcur] at hc
    cases hc
  rw [(step_signals encode h.keyed op w).wakeups, if_neg fun hno => hpast hno.2, Nat.add_zero]

/-- what became of a watch in a run: the job goes on watching, and the waiter's channel was woken exactly if the key was, or
not at all if the waiter had been cancelled before -/
structure Noticed (encode : ω → Except WireError Data) (f : Feed β) (ops : List (Op ω β)) (id name : String) (watch : Watch) :
    Prop where
  watches : (f.run encode ops).1.Watches id name watch
  exact : f.waits.isCancelled watch.waiter = false →
    (f.waits.wakeups watch.waiter < (f.run encode ops).1.waits.wakeups watch.waiter ↔
      RousedIn encode f watch.waiter.key ops)
  deaf : f.waits.isCancelled watch.waiter = true →
    (f.run encode ops).1.waits.wakeups watch.waiter = f.waits.wakeups watch.waiter

/-- **A watched channel is woken exactly with its key**, until the job is told. -/
theorem noticed_run (h : f.Sound past) (hw : f.Watches id name watch) (hops : ∀ op ∈ ops, op.leavesWatch id name = true)
    (hpending : ∀ mid rest, ops = mid ++ .poll id :: rest → ((f.run encode mid).1.poll id).2 ≠ some .notified) :
    Noticed encode f ops id name watch := by
  induction ops generalizing f past with
  | nil => exact ⟨hw, fun _ => iff_of_false (lt_irrefl _) not_rousedIn_nil, fun _ => rfl⟩
  | cons op ops ih =>
    have hsound := sound_step encode h op
    have hfirst : op = .poll id → (f.poll id).2 ≠ some .notified := by
      rintro rfl
      exact hpending [] ops rfl
    have hstep : (f.step encode op).1.Watches id name watch :=
      watches_step encode h hw (hops op List.mem_cons_self) hfirst
    have hrest := ih hsound hstep (fun op' hop' => hops op' (List.mem_cons_of_mem op hop')) fun mid rest hsplit =>
      hpending (op :: mid) rest (congrArg (op :: ·) hsplit)
    refine ⟨hrest.watches, ?_, ?_⟩
    · intro hc
      have hone := wakeups_step encode h hw.registration hc op
      have hmono := wakeups_le_run encode hsound ops watch.waiter
      rw [rousedIn_cons]
      cases hrouses : op.rouses encode f watch.waiter.key with
      | true =>
        rw [hrouses, Bool.toNat_true] at hone
        exact iff_of_true (lt_of_lt_of_le (by omega) hmono) (Or.inl rfl)
      | false =>
        -- what does not wake the key does not cancel it
        have hstand : (f.step encode op).1.waits.isCancelled watch.waiter = false := by
          rw [(step_signals encode h.keyed op watch.waiter).cancelled, hc, Bool.false_or, decide_eq_false_iff_not]
          rintro ⟨hdismisses, -⟩
          rw [rouses_of_dismisses hdismisses] at hrouses
          cases hrouses
        have hiff := hrest.exact hstand
        rw [hone, hrouses, Bool.toNat_false, Nat.add_zero] at hiff
        simp only [Bool.false_eq_true, false_or]
        exact hiff
    · intro hc
      have hsame := wakeups_step_of_cancelled encode h hc op
      have hstill : (f.step encode op).1.waits.isCancelled watch.waiter = true := by
        rw [(step_signals encode h.keyed op watch.waiter).cancelled, hc, Bool.true_or]
      exact (hrest.deaf hstill).trans hsame

/-- a job that was just started watches, from now on -/
theorem watches_startWatch (hwaiter : f.waiters.get? name = some w) :
    (f.step encode (.startWatch id name : Op ω β)).1.Watches id name (f.waits.watch w) := by
  have hundisturbed := (aside_drop f id).waits
  rw [step_startWatch]
  simp only [startWatch, hwaiter]
  refine ⟨⟨false, ?_⟩, ?_⟩
  · rw [Table.get?_set_self, WaitRegistry.watch, WaitRegistry.watch, hundisturbed.wakeups]
  · exact (congrArg (fun f => f.waiters.get? name) (drop_frame f id)).trans hwaiter

end Watching

/-- **Notices are exact.** Let a job start to watch for a named waiter, in any state that a run can reach, and let anything
follow that ends neither of them and does not tell the job. Then a poll of the job
- tells it that the waiter's key was woken, exactly if an operation since the start of the job woke or cancelled that key,
  if the waiter was not cancelled at the start;
- leaves it pending, whatever was done, if the waiter was cancelled already;
- has no other result;
- and gives the same after an operation on any other journal. -/
theorem notices_exact (encode : ω → Except WireError Data) (resolver : Resolver) (registered : Bool)
    (pre post : List (Op ω β)) (id name : String) (w : Waiter) :
    let start : Feed β := init resolver registered
    let f := (start.run encode pre).1
    let f₀ := (f.step encode (.startWatch id name)).1
    let g := (f₀.run encode post).1
    f.waiters.get? name = some w →
    (∀ op ∈ post, op.leavesWatch id name = true) →
    (∀ mid rest, post = mid ++ .poll id :: rest → ((f₀.run encode mid).1.poll id).2 ≠ some .notified) →
    (f.waits.isCancelled w = false → ((g.poll id).2 = some .notified ↔ RousedIn encode f₀ w.key post)) ∧
    (f.waits.isCancelled w = true → (g.poll id).2 = some .pending) ∧
    ((g.poll id).2 = some .notified ∨ (g.poll id).2 = some .pending) ∧
    (∀ op : Op ω β, op.leavesWatch id name = true → op ≠ .poll id → op.journal? ≠ some w.key →
      ((g.step encode op).1.poll id).2 = (g.poll id).2) := by
  intro start f f₀ g hwaiter hpost hpending
  have h : f.Sound _ := sound_run encode (sound_init resolver registered) pre
  have h₀ : f₀.Sound _ := sound_step encode h (.startWatch id name)
  have hundisturbed : Undisturbed f.waits f₀.waits := undisturbed_step encode f rfl
  have hnoticed := noticed_run h₀ (watches_startWatch hwaiter) hpost hpending
  have hwatches : g.Watches id name (f.waits.watch w) := hnoticed.watches
  have hready : g.waits.ready (f.waits.watch w) = true ↔ f₀.waits.wakeups w < g.waits.wakeups w := by
    rw [hundisturbed.wakeups w, WaitRegistry.ready, WaitRegistry.watch, decide_eq_true_eq]
  refine ⟨?_, ?_, ?_, ?_⟩
  · intro hc
    rw [hwatches.notified_iff, hready]
    exact hnoticed.exact ((hundisturbed.cancelled w).trans hc)
  · intro hc
    have hsame := hnoticed.deaf ((hundisturbed.cancelled w).trans hc)
    rw [hwatches.pending_iff, ← Bool.not_eq_true, hready]
    exact hsame.le.not_gt
  · rw [hwatches.notified_iff, hwatches.pending_iff]
    exact (Bool.eq_false_or_eq_true _)
  · intro op hop hne hjournal
    have hg : g.Sound _ := sound_run encode h₀ post
    have hquiet : op.rouses encode g w.key = false := by
      by_contra hrouses
      exact hjournal (journal?_of_rouses hg.keyed (by simpa using hrouses))
    have hstep := watches_step encode hg hwatches hop fun heq => absurd heq hne
    have hwakeups : (g.step encode op).1.waits.wakeups w = g.waits.wakeups w := by
      rw [(step_signals encode hg.keyed op w).wakeups, hquiet, if_neg (by simp), Nat.add_zero]
    have hsame : (g.step encode op).1.waits.ready (f.waits.watch w) = g.waits.ready (f.waits.watch w) := by
      rw [WaitRegistry.ready, WaitRegistry.ready, WaitRegistry.watch, hwakeups]
    rw [hstep.poll, hwatches.poll, hsame]

/-- a watch for the orders is polled in vain, and told after the orders are cancelled; one that is taken then, for the same
waiter, is not told of the wake-ups of the next one -/
theorem notices_exact_orders :
    let pre : List (Op Data Data) := [.addWaiter "a" ordersKey]
    let post : List (Op Data Data) := [.poll "n", .addWaiter "b" stocksKey, .wake stocksKey, .cancel ordersKey]
    let later : List (Op Data Data) := [.addWaiter "b" ordersKey, .poll "m", .wake ordersKey]
    let f₀ := (run .ok (init smallResolver true : Feed Data) (pre ++ [.startWatch "n" "a"])).1
    let f₁ := (run .ok (init smallResolver true : Feed Data) (pre ++ [.cancel ordersKey, .startWatch "m" "a"])).1
    ((f₀.run .ok post).1.poll "n").2 = some .notified ∧ ((f₁.run .ok later).1.poll "m").2 = some .pending := by
  intro pre post later f₀ f₁
  have hexact := notices_exact .ok smallResolver true pre post "n" "a" ⟨ordersKey, 0⟩ (by decide +kernel) (by decide +kernel)
    (by
      intro mid rest hsplit
      rcases mid with _ | ⟨_, _ | ⟨_, _ | ⟨_, _ | ⟨_, mid⟩⟩⟩⟩ <;> simp [post] at hsplit
      show some Progress.pending ≠ some .notified
      simp)
  have hdeaf := notices_exact .ok smallResolver true (pre ++ [.cancel ordersKey]) later "m" "a" ⟨ordersKey, 0⟩
    (by decide +kernel) (by decide +kernel)
    (by
      intro mid rest hsplit
      rcases mid with _ | ⟨_, _ | ⟨_, _ | ⟨_, mid⟩⟩⟩ <;> simp [later] at hsplit
      obtain ⟨rfl, -⟩ := hsplit
      show some Progress.pending ≠ some .notified
      simp)
  exact ⟨(hexact.1 (by decide +kernel)).2 ⟨post.take 3, .cancel ordersKey, [], rfl, by decide +kernel⟩,
    hdeaf.2.1 (by decide +kernel)⟩

end Feed

end Changefeed
