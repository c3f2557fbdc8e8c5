/-
Journals do not interfere. What a run does to one journal is done by the operations that concern it: those addressed to the
journal, by its key or through one of its readers and waiters, those about the settings of its namespace, and those that
change the surroundings (`Op.concerns`). All others can be deleted from the run.

Readers and waiters go by names, and a name can be taken from one journal and given to another. Such an operation is about
both journals; of it, the end of the reader or waiter that had the name is kept (`Op.takes?`).

Results:
- `alike_step_of_ne`: an operation that does not concern a journal is not noticed from it;
- `orderly_run`: in every feed that a run can reach, readers and waiters are on the journals that they say;
- `alike_share`: from a journal, a run looks like its share of it;
- `journals_apart`: so every operation that concerns the journal gives the same answer, and the same readers are woken.
-/
import Changefeed.Proofs.Locality

namespace Changefeed

variable {ω β : Type}

/-- the end of a consumer of a journal, if the operation takes its name for another journal -/
def Op.takes? (f : Feed β) (key : JournalKey) : Op ω β → Option (Op ω β)
  | .startReader id .. => if (f.jobs.get? id).any (fun job => job.key = key) then some (.drop id) else none
  | .startWatch id name =>
    if (f.waiters.get? name).isSome ∧ (f.jobs.get? id).any (fun job => job.key = key) then some (.drop id) else none
  | .addWaiter name _ => if (f.waiters.get? name).any (fun w => w.key = key) then some (.dropWaiter name) else none
  | _ => none

/-- what remains of an operation if only one journal is looked at -/
def Op.part? (f : Feed β) (key : JournalKey) (op : Op ω β) : Option (Op ω β) :=
  if op.concerns f key then some op else op.takes? f key

namespace Feed

section Elsewhere

variable {key k : JournalKey} {f : Feed β}

/-! ## What is not noticed -/

theorem alike_of_store {store : Store EventRecord} (h : store.journal key = f.store.journal key) :
    Alike key f { f with store } := ⟨rfl, rfl, h, .refl _ _, .refl _, .refl _⟩

theorem alike_of_waits {waits : WaitRegistry} (h : WaitRegistry.SameLine f.waits waits key) :
    Alike key f { f with waits } := ⟨rfl, rfl, rfl, h, .refl _, .refl _⟩

theorem alike_of_jobs {jobs : Table String (Job β)} (h : Table.Agree (fun job => job.key = key) f.jobs jobs) :
    Alike key f { f with jobs } := ⟨rfl, rfl, rfl, .refl _ _, h, .refl _⟩

theorem alike_container?_of_ne (hk : key ≠ k) : Alike key f (f.container? k).1 := by
  have hlook := container?_look f k
  generalize f.container? k = p at hlook
  cases hlook with
  | refused e => exact .refl key f
  | absent => exact .refl key f
  | found c => exact .refl key f
  | begun c => exact alike_of_store (journal_beginWith_of_ne f hk c)

theorem sameLine_wake_of_ne (r : WaitRegistry) (hk : key ≠ k) : WaitRegistry.SameLine r (r.wake k) key :=
  WaitRegistry.sameLine_wake (w := ⟨key, 0⟩) hk

theorem sameLine_cancel_of_ne (r : WaitRegistry) (hk : key ≠ k) : WaitRegistry.SameLine r (r.cancel k) key :=
  WaitRegistry.sameLine_cancel (w := ⟨key, 0⟩) hk

theorem alike_write_of_ne (encode : ω → Except WireError Data) (ho : f.Orderly) (hk : key ≠ k) (now : ℕ)
    (change : Change ω ω) : Alike key f (f.write encode k now change).1 := by
  have hlook : Alike key f (f.container? k).1 := alike_container?_of_ne hk
  have hwritten := write_written encode f k now change
  generalize (f.write encode k now change).1 = f' at hwritten
  cases hwritten with
  | nothing => exact hlook
  | @record f' c a hp =>
    have hc : c.key = k := key_of_container? ho.keyed hp
    rw [hp] at hlook
    have hput : Alike key f' { f' with store := f'.store.put (c.append a now).1 } :=
      alike_of_store (Store.journal_put_of_ne (by rw [Container.key_append, hc]; exact hk))
    have hwake := hput.trans (alike_of_waits (sameLine_wake_of_ne f'.waits hk))
    rw [hc]
    exact hlook.trans (alike_written hwake f'.written _)

theorem alike_cleanup_of_ne (ho : f.Orderly) (hk : key ≠ k) (now : ℕ) : Alike key f (f.cleanup k now).1 := by
  have hlook : Alike key f (f.container? k).1 := alike_container?_of_ne hk
  rcases cleanup_cases f k now with h | ⟨f', c, hp, h⟩
  · rw [h]
    exact hlook
  · have hc : c.key = k := key_of_container? ho.keyed hp
    rw [hp] at hlook
    rw [h]
    exact hlook.trans (alike_of_store (Store.journal_put_of_ne (by rw [Container.key_cleanup, hc]; exact hk)))

theorem alike_destroy_of_ne (hk : key ≠ k) : Alike key f (f.destroy k) := by
  unfold destroy
  split
  · exact .refl key f
  · have hdiscard : Alike key f { f with store := (f.store.discard k).1 } :=
      alike_of_store (Store.journal_discard_of_ne f.store hk)
    exact hdiscard.trans (alike_of_waits (sameLine_cancel_of_ne f.waits hk))

theorem alike_onHandle_of_ne {handle : Handle} (hk : key ≠ handle.key)
    (act : Container EventRecord → Container EventRecord × Except JournalError (Answer β)) :
    Alike key f (f.onHandle handle act).1 := by
  unfold onHandle
  split
  · exact .refl key f
  · exact alike_of_store (Store.journal_set_of_ne _ hk _)

theorem alike_advance_of_ne (id : String) {w : Waiter} (hw : key ≠ w.key) {r : Reader β} (hr : r.key ≠ key)
    (hid : ∀ job, f.jobs.get? id = some job → job.key ≠ key) : Alike key f (f.advance id w r).1 := by
  have hturns : Alike key f (turns w 2 f r.position r.batch).1 ∧ (turns w 2 f r.position r.batch).1.jobs = f.jobs := by
    rcases turns_fst w 2 f r.position r.batch with h | h
    · rw [h]
      exact ⟨.refl key f, rfl⟩
    · rw [h]
      refine ⟨alike_container?_of_ne hw, ?_⟩
      rw [container?_frame]
  unfold advance
  generalize turns w 2 f r.position r.batch = p at hturns
  obtain ⟨f', t⟩ := p
  obtain ⟨hlook, hjobs⟩ := hturns
  have hid' : ∀ job, f'.jobs.get? id = some job → job.key ≠ key := hjobs ▸ hid
  cases t with
  | finished result =>
    have herase : Alike key f' { f' with jobs := f'.jobs.erase id } := alike_of_jobs (Table.agree_erase hid')
    exact hlook.trans (herase.trans (alike_of_waits ⟨WaitRegistry.line_set_of_ne _ hw _⟩))
  | parked watch position b => exact hlook.trans (alike_of_jobs (Table.agree_set hid' hr))
  | again position b => exact hlook.trans (alike_of_jobs (Table.agree_set hid' hr))

theorem alike_poll_of_ne (ho : f.Orderly) {id : String} (hid : ∀ job, f.jobs.get? id = some job → job.key ≠ key) :
    Alike key f (f.poll id).1 := by
  unfold poll
  cases hjob : f.jobs.get? id with
  | none => exact .refl key f
  | some job =>
    have hk := hid job hjob
    cases job with
    | reader r =>
      simp only [pollReader]
      cases hp : r.parked with
      | some watch =>
        have hw : key ≠ watch.waiter.key := by
          rw [ho.parked id r watch hjob hp]
          exact hk.symm
        simp only
        split
        · exact alike_advance_of_ne id hw hk hid
        · exact .refl key f
      | none =>
        have hregister : Alike key f { f with waits := (f.waits.register r.key).1 } :=
          alike_of_waits ⟨WaitRegistry.line_set_of_ne _ hk.symm _⟩
        exact hregister.trans (alike_advance_of_ne id hk.symm hk hid)
    | watch owner watch polled =>
      simp only
      split
      · exact alike_of_jobs (Table.agree_erase hid)
      · exact alike_of_jobs (Table.agree_set hid hk)

theorem alike_startReader_of_ne (hk : k ≠ key) (id : String) (s : Int) (b : Batch EventRecord β) :
    Alike key (f.drop id).1 (f.startReader id k s b) :=
  alike_of_jobs (Table.agree_set (Table.not_of_free (get?_drop_self f id)) hk)

theorem alike_startWatch_of_ne (id : String) {name : String} {w : Waiter} (hwaiter : f.waiters.get? name = some w)
    (hk : w.key ≠ key) : Alike key (f.drop id).1 (f.startWatch id name).1 := by
  unfold startWatch
  rw [hwaiter]
  exact alike_of_jobs (Table.agree_set (Table.not_of_free (get?_drop_self f id)) hk)

theorem alike_addWaiter_of_ne (hk : k ≠ key) (name : String) :
    Alike key (f.dropWaiter name).1 (f.addWaiter name k).1 := by
  have hfree := get?_waiters_dropWaiter f name
  exact ⟨rfl, rfl, rfl, ⟨WaitRegistry.line_set_of_ne _ hk.symm _⟩, .refl _, Table.agree_set (Table.not_of_free hfree) hk⟩

/-! ## Every operation -/

/-- an operation that does not concern a journal is not addressed to it -/
theorem ne_of_not_concerns {op : Op ω β} (hop : op.concerns f key = false) : op.address? f ≠ some key :=
  of_decide_eq_false (Bool.or_eq_false_iff.1 hop).2

/-- of an operation that takes a name from a journal, the journal notices that who had it is gone -/
theorem alike_of_takes (encode : ω → Except WireError Data) {f' : Feed β} (h : Alike key f f') (ho : f.Orderly)
    (ho' : f'.Orderly) {op op' : Op ω β} (hop : op.concerns f key = false) (htakes : op.takes? f key = some op') :
    Alike key (f.step encode op).1 (f'.step encode op').1 := by
  have hne := ne_of_not_concerns hop
  cases op with
  | startReader id k s b =>
    have hk : k ≠ key := fun hk => hne (congrArg some hk)
    simp only [Op.takes?] at htakes
    split at htakes
    · cases htakes
      exact (alike_startReader_of_ne hk id s b).symm.trans (alike_drop h ho ho' id)
    · cases htakes
  | startWatch id name =>
    simp only [Op.takes?] at htakes
    split at htakes
    · next htaken =>
      cases htakes
      obtain ⟨w, hwaiter⟩ := Option.isSome_iff_exists.1 htaken.1
      have hk : w.key ≠ key := fun hk => hne (by rw [Op.address?, hwaiter, Option.map_some, hk])
      rw [step_startWatch]
      exact (alike_startWatch_of_ne id hwaiter hk).symm.trans (alike_drop h ho ho' id)
    · cases htakes
  | addWaiter name k =>
    have hk : k ≠ key := fun hk => hne (congrArg some hk)
    simp only [Op.takes?] at htakes
    split at htakes
    · cases htakes
      exact (alike_addWaiter_of_ne hk name).symm.trans (alike_dropWaiter h ho ho' name)
    · cases htakes
  | _ => cases htakes

theorem ne_of_not_any {α : Type} {o : Option α} {p : α → Prop} [DecidablePred p] (h : ¬ (o.any fun a => p a) = true) :
    ∀ a, o = some a → ¬ p a := by
  rintro a rfl hp
  exact h (decide_eq_true hp)

/-- **An operation that does not concern a journal is not noticed from it**, unless it takes a name from it. -/
theorem alike_step_of_ne (encode : ω → Except WireError Data) (ho : f.Orderly) {op : Op ω β}
    (hop : op.concerns f key = false) (htakes : op.takes? f key = none) : Alike key f (f.step encode op).1 := by
  have hne := ne_of_not_concerns hop
  have hother : ∀ {k : JournalKey}, op.address? f = some k → key ≠ k := fun hk heq => hne (heq ▸ hk)
  have hquery : ∀ {γ : Type} {k : JournalKey} (ask : Container EventRecord → Except JournalError γ)
      (give : γ → Answer β), op.address? f = some k → Alike key f (answer give (f.query k ask)).1 := by
    intro γ k ask give hk
    rw [answer_fst, query_fst]
    exact alike_container?_of_ne (hother hk)
  cases op with
  | write k now change =>
    simp only [step, answer_fst]
    exact alike_write_of_ne encode ho (hother rfl) now change
  | newest k => exact hquery _ _ rfl
  | oldest k => exact hquery _ _ rfl
  | subscribe k =>
    simp only [step, answer_fst, subscribe_fst]
    exact alike_container?_of_ne (hother rfl)
  | checkPosition k s => exact hquery _ _ rfl
  | shouldWait k s => exact hquery _ _ rfl
  | readMany k s b => exact hquery _ _ rfl
  | cleanup k now =>
    simp only [step, answer_fst]
    exact alike_cleanup_of_ne ho (hother rfl) now
  | destroy k => exact alike_destroy_of_ne (hother rfl)
  | startReader id k s b =>
    simp only [Op.takes?] at htakes
    split at htakes
    · cases htakes
    · next hfree => exact (alike_drop_of_ne ho (ne_of_not_any hfree)).trans (alike_startReader_of_ne (hother rfl).symm id s b)
  | poll id =>
    rw [step_poll]
    exact alike_poll_of_ne ho fun job hjob hk => hne (by rw [Op.address?, hjob, Option.map_some, hk])
  | drop id =>
    exact alike_drop_of_ne ho fun job hjob hk => hne (by rw [Op.address?, hjob, Option.map_some, hk])
  | addWaiter name k =>
    simp only [Op.takes?] at htakes
    split at htakes
    · cases htakes
    · next hfree =>
      exact (alike_dropWaiter_of_ne ho (ne_of_not_any hfree)).trans (alike_addWaiter_of_ne (hother rfl).symm name)
  | startWatch id name =>
    rw [step_startWatch]
    cases hwaiter : f.waiters.get? name with
    | none =>
      simp only [startWatch, hwaiter]
      exact .refl key f
    | some w =>
      have hk : w.key ≠ key := fun hk => hne (by rw [Op.address?, hwaiter, Option.map_some, hk])
      simp only [Op.takes?, hwaiter, Option.isSome_some, true_and] at htakes
      split at htakes
      · cases htakes
      · next hfree => exact (alike_drop_of_ne ho (ne_of_not_any hfree)).trans (alike_startWatch_of_ne id hwaiter hk)
  | waiterCancelled name =>
    simp only [step]
    split <;> exact .refl key f
  | dropWaiter name =>
    exact alike_dropWaiter_of_ne ho fun w hw hk => hne (by rw [Op.address?, hw, Option.map_some, hk])
  | wake k => exact alike_of_waits (sameLine_wake_of_ne f.waits (hother rfl))
  | wakeContainer handle =>
    simp only [step]
    cases hc : f.store.get? handle with
    | none => exact .refl key f
    | some c =>
      have hk : c.key = handle.key := ho.keyed handle.key handle.generation c hc
      exact alike_of_waits (sameLine_wake_of_ne f.waits (hk ▸ hother rfl))
  | cancel k => exact alike_of_waits (sameLine_cancel_of_ne f.waits (hother rfl))
  | provide k config =>
    simp only [step, Store.provide]
    cases f.store.live? k with
    | some c => exact .refl key f
    | none =>
      cases Container.create k config with
      | error e => exact .refl key f
      | ok c => exact alike_of_store (journal_beginWith_of_ne f (hother rfl) c)
  | discard k => exact alike_of_store (Store.journal_discard_of_ne f.store (hother rfl))
  | inspect handle => exact alike_onHandle_of_ne (hother rfl) _
  | append handle record now => exact alike_onHandle_of_ne (hother rfl) _
  | readOne handle s => exact alike_onHandle_of_ne (hother rfl) _
  | checkIn handle s => exact alike_onHandle_of_ne (hother rfl) _
  | shouldWaitIn handle s => exact alike_onHandle_of_ne (hother rfl) _
  | cleanupIn handle now => exact alike_onHandle_of_ne (hother rfl) _
  | setRegistry registry => cases hop
  | setVersion version => cases hop
  | setPartitions partitions => cases hop
  | registerStore => cases hop
  | storageConfig config => cases hop
  | _ => exact .refl key f

end Elsewhere

/-! ## Readers and waiters stay on their journals -/

section Order

variable {f : Feed β} {past : JournalKey → List EventRecord}

/-- the jobs that wait for named waiters after a poll were there before -/
theorem watch_of_poll (hring : f.Ringed) {id id' name : String} {watch : Watch} {polled : Bool}
    (h : (f.poll id).1.jobs.get? id' = some (.watch name watch polled)) :
    ∃ polled', f.jobs.get? id' = some (.watch name watch polled') := by
  by_cases hid : id' = id
  · subst hid
    cases hjob : f.jobs.get? id' with
    | none =>
      simp only [poll, hjob] at h
      cases h
    | some job =>
      cases job with
      | watch owner watch' polled' =>
        simp only [poll, hjob] at h
        split at h
        · rw [Table.get?_erase_self] at h
          cases h
        · rw [Table.get?_set_self] at h
          cases h
          exact ⟨polled', rfl⟩
      | reader r =>
        obtain ⟨f', p, heq, hpolled⟩ := poll_polled hring hjob
        rw [heq] at h
        cases hpolled with
        | asleep =>
          rw [hjob] at h
          cases h
        | ended =>
          rw [Table.get?_erase_self] at h
          cases h
        | parked =>
          rw [Table.get?_set_self] at h
          cases h
  · rw [(aside_poll f id).jobs id' hid] at h
    exact ⟨polled, h⟩

/-- a job that is there without a named waiter does not watch for it -/
theorem watch_of_dropWaiter {id name name' : String} {watch : Watch} {polled : Bool} (ho : f.Orderly)
    (h : (f.dropWaiter name).1.jobs.get? id = some (.watch name' watch polled)) :
    name' ≠ name ∧ f.waiters.get? name' = some watch.waiter := by
  cases hwaiter : f.waiters.get? name with
  | none =>
    have hdrop : f.dropWaiter name = (f, false) := by simp only [dropWaiter, hwaiter]
    rw [hdrop] at h
    have howner := ho.owned id name' watch polled h
    refine ⟨?_, howner⟩
    rintro rfl
    rw [hwaiter] at howner
    cases howner
  | some w =>
    have hdrop : (f.dropWaiter name).1.jobs = (f.orphans name).foldl Table.erase f.jobs := by
      unfold dropWaiter
      rw [hwaiter]
      rfl
    rw [hdrop, Table.get?_foldl_erase] at h
    split at h
    · cases h
    · next hno =>
      refine ⟨?_, ho.owned id name' watch polled h⟩
      rintro rfl
      exact hno (mem_orphans.2 ⟨watch, polled, h⟩)

/-- who waits for a named waiter waits for the one that has the name -/
theorem owned_step (encode : ω → Except WireError Data) (h : f.Sound past) (ho : f.Orderly) (op : Op ω β)
    (id name : String) (watch : Watch) (polled : Bool)
    (hjob : (f.step encode op).1.jobs.get? id = some (.watch name watch polled)) :
    (f.step encode op).1.waiters.get? name = some watch.waiter := by
  -- the waiter is neither new nor gone: its jobs would be gone, too
  have hother : op.waiter? ≠ some name := by
    intro hname
    cases op with
    | addWaiter name' k => exact (watch_of_dropWaiter ho hjob).1 (Option.some.inj hname).symm
    | dropWaiter name' => exact (watch_of_dropWaiter ho hjob).1 (Option.some.inj hname).symm
    | _ => cases hname
  rw [step_waiter_of_ne encode h.keyed h.history.ringed hother]
  cases hop : op.enlists with
  | false =>
    rw [(step_apart encode h.keyed hop).jobs] at hjob
    exact ho.owned id name watch polled hjob
  | true =>
    -- a job that is left after a job was dropped is one of the others
    have hdropped : ∀ {id' : String}, (f.drop id').1.jobs.get? id = some (.watch name watch polled) →
        f.waiters.get? name = some watch.waiter := by
      intro id' hjob
      by_cases hid : id = id'
      · rw [hid, get?_drop_self] at hjob
        cases hjob
      · rw [(aside_drop f id').jobs id hid] at hjob
        exact ho.owned id name watch polled hjob
    cases op with
    | startReader id' k s b =>
      by_cases hid : id = id'
      · simp only [step, startReader, hid, Table.get?_set_self] at hjob
        cases hjob
      · exact hdropped ((Table.get?_set_of_ne _ hid _).symm.trans hjob)
    | poll id' =>
      rw [step_poll] at hjob
      obtain ⟨polled', hjob⟩ := watch_of_poll h.history.ringed hjob
      exact ho.owned id name watch polled' hjob
    | drop id' => exact hdropped hjob
    | addWaiter name' k => exact (watch_of_dropWaiter ho hjob).2
    | startWatch id' name' =>
      rw [step_startWatch] at hjob
      cases hwaiter : f.waiters.get? name' with
      | none =>
        simp only [startWatch, hwaiter] at hjob
        exact ho.owned id name watch polled hjob
      | some w =>
        simp only [startWatch, hwaiter] at hjob
        by_cases hid : id = id'
        · rw [hid, Table.get?_set_self] at hjob
          cases hjob
          exact hwaiter
        · rw [Table.get?_set_of_ne _ hid] at hjob
          exact hdropped hjob
    | dropWaiter name' => exact (watch_of_dropWaiter ho hjob).2
    | _ => cases hop

/-- a sound feed is orderly if those who wait for a named waiter wait for the one that has the name -/
theorem Sound.orderly (h : f.Sound past) (howned : ∀ id name watch polled,
    f.jobs.get? id = some (.watch name watch polled) → f.waiters.get? name = some watch.waiter) : f.Orderly :=
  ⟨h.keyed, fun id r watch hr hp => (h.watching id r watch hr hp).key, howned⟩

theorem orderly_init (resolver : Resolver) (registered : Bool) : (init resolver registered : Feed β).Orderly :=
  (sound_init resolver registered).orderly fun _ _ _ _ hjob => by cases hjob

/-- **Every run keeps a feed orderly.** -/
theorem orderly_run (encode : ω → Except WireError Data) (h : f.Sound past) (ho : f.Orderly) (ops : List (Op ω β)) :
    (f.run encode ops).1.Orderly := by
  induction ops generalizing f past with
  | nil => exact ho
  | cons op ops ih =>
    have hsound := sound_step encode h op
    exact ih hsound (hsound.orderly (owned_step encode h ho op))

end Order

/-! ## The share of a journal in a run -/

/-- what remains of a run if only one journal is looked at -/
def share (encode : ω → Except WireError Data) (key : JournalKey) : Feed β → List (Op ω β) → List (Op ω β)
  | _, [] => []
  | f, op :: ops => (op.part? f key).toList ++ share encode key (f.step encode op).1 ops

theorem share_append (encode : ω → Except WireError Data) (key : JournalKey) (f : Feed β) (ops ops' : List (Op ω β)) :
    share encode key f (ops ++ ops') =
      share encode key f ops ++ share encode key (f.run encode ops).1 ops' := by
  induction ops generalizing f with
  | nil => rfl
  | cons op ops ih => simp only [List.cons_append, share, run, ih, List.append_assoc]

theorem share_snoc (encode : ω → Except WireError Data) (key : JournalKey) (f : Feed β) (ops : List (Op ω β))
    (op : Op ω β) :
    share encode key f (ops ++ [op]) = share encode key f ops ++ (op.part? (f.run encode ops).1 key).toList := by
  rw [share_append, share, share, List.append_nil]

/-- what remains of an operation does to the journal what the operation does -/
theorem alike_part (encode : ω → Except WireError Data) {key : JournalKey} {f f' : Feed β} (h : Alike key f f')
    (ho : f.Orderly) (ho' : f'.Orderly) (op : Op ω β) :
    Alike key (f.step encode op).1 (f'.run encode (op.part? f key).toList).1 := by
  unfold Op.part?
  cases hop : op.concerns f key with
  | true => exact (same_step encode h ho ho' hop).feed
  | false =>
    cases htakes : op.takes? f key with
    | some op' => exact alike_of_takes encode h ho ho' hop htakes
    | none => exact (alike_step_of_ne encode ho hop htakes).symm.trans h

/-- **From a journal, a run looks like its share of it.** -/
theorem alike_share (encode : ω → Except WireError Data) (key : JournalKey) (resolver : Resolver) (registered : Bool)
    (ops : List (Op ω β)) :
    let start : Feed β := init resolver registered
    Alike key (start.run encode ops).1 (start.run encode (share encode key start ops)).1 := by
  intro start
  have horderly : ∀ ops : List (Op ω β), (start.run encode ops).1.Orderly :=
    orderly_run encode (sound_init resolver registered) (orderly_init resolver registered)
  -- from the end: what remains of the last operation is told by the feed before it
  induction ops using List.reverseRecOn with
  | nil => exact .refl key start
  | append_singleton ops op ih =>
    have hpart := alike_part encode ih (horderly ops) (horderly _) op
    rw [share_snoc, run_append, run_append]
    exact hpart

/-! ## Who is woken -/

/-- the consumers of a journal that were woken since their last poll, in ascending order of their names -/
def wokenOn (f : Feed β) (key : JournalKey) : List String :=
  f.wokenJobs.filter fun id => (f.jobs.get? id).any fun job => job.key = key

theorem mem_wokenOn {f : Feed β} {key : JournalKey} {id : String} :
    id ∈ f.wokenOn key ↔ ∃ job, f.jobs.get? id = some job ∧ job.key = key ∧ f.woken job = true := by
  rw [wokenOn, List.mem_filter, mem_wokenJobs, Option.any_eq_true]
  constructor
  · rintro ⟨⟨job, hjob, hwoken⟩, job', hjob', hk⟩
    rw [hjob] at hjob'
    cases hjob'
    exact ⟨job, hjob, of_decide_eq_true hk, hwoken⟩
  · rintro ⟨job, hjob, hk, hwoken⟩
    exact ⟨⟨job, hjob, hwoken⟩, job, hjob, decide_eq_true hk⟩

theorem sorted_wokenOn (f : Feed β) (key : JournalKey) : (f.wokenOn key).Pairwise (· ≤ ·) := by
  have hsorted : f.wokenJobs.Pairwise fun a b => decide (a ≤ b) = true := by
    refine List.pairwise_mergeSort ?_ ?_ _
    · intro a b c hab hbc
      exact decide_eq_true (String.le_trans (of_decide_eq_true hab) (of_decide_eq_true hbc))
    · intro a b
      rw [Bool.or_eq_true, decide_eq_true_eq, decide_eq_true_eq]
      exact String.le_total a b
  exact (hsorted.imp of_decide_eq_true).filter _

theorem nodup_wokenOn (f : Feed β) (key : JournalKey) : (f.wokenOn key).Nodup := by
  have hnames : ((f.jobs.entries.filter fun e => f.woken e.2).map Prod.fst).Nodup :=
    f.jobs.nodup.sublist (List.filter_sublist.map _)
  exact ((List.mergeSort_perm _ _).nodup_iff.2 hnames).filter _

/-- a consumer of the journal is woken in both feeds or in none -/
theorem Alike.woken {key : JournalKey} {f f' : Feed β} (h : Alike key f f') (ho : f.Orderly) {id : String} {job : Job β}
    (hjob : f.jobs.get? id = some job) (hk : job.key = key) : f'.woken job = f.woken job := by
  cases job with
  | reader r =>
    cases hp : r.parked with
    | none => simp only [Feed.woken, hp]
    | some watch =>
      have hw : watch.waiter.key = key := (ho.parked id r watch hjob hp).trans hk
      have hline : WaitRegistry.SameLine f.waits f'.waits watch.waiter.key := hw ▸ h.line
      simp only [Feed.woken, hp, hline.ready]
  | watch owner watch polled =>
    have hw : watch.waiter.key = key := hk
    have hline : WaitRegistry.SameLine f.waits f'.waits watch.waiter.key := hw ▸ h.line
    simp only [Feed.woken, hline.ready]

theorem Alike.wokenOn {key : JournalKey} {f f' : Feed β} (h : Alike key f f') (ho : f.Orderly) :
    f'.wokenOn key = f.wokenOn key := by
  have hmem : ∀ id, id ∈ f'.wokenOn key ↔ id ∈ f.wokenOn key := by
    intro id
    rw [mem_wokenOn, mem_wokenOn]
    constructor
    · rintro ⟨job, hjob', hk, hwoken⟩
      have hjob := (h.jobs id job hk).1 hjob'
      exact ⟨job, hjob, hk, (h.woken ho hjob hk).symm.trans hwoken⟩
    · rintro ⟨job, hjob, hk, hwoken⟩
      exact ⟨job, (h.jobs id job hk).2 hjob, hk, (h.woken ho hjob hk).trans hwoken⟩
  have hperm := (List.perm_ext_iff_of_nodup (nodup_wokenOn f' key) (nodup_wokenOn f key)).2 hmem
  exact hperm.eq_of_pairwise (fun _ _ _ _ => String.le_antisymm) (sorted_wokenOn f' key) (sorted_wokenOn f key)

/-! ## Journals do not interfere -/

/-- the answer to an operation in the midst of a run -/
theorem answer_run (encode : ω → Except WireError Data) (f : Feed β) (pre : List (Op ω β)) (op : Op ω β)
    (post : List (Op ω β)) :
    (f.run encode (pre ++ op :: post)).2[pre.length]? = some ((f.run encode pre).1.step encode op).2 := by
  have hlength := length_run encode f pre
  rw [run_append, List.getElem?_append_right hlength.le, hlength, Nat.sub_self]
  rfl

/-- **Journals do not interfere.** Take any run and keep its share of a journal alone. Then
- an operation that concerns the journal is kept in its place, and gives the same answer;
- every other operation is deleted, unless it takes a name from a consumer of the journal (then the end of that consumer
  is kept in its place);
- after every operation, the same consumers of the journal are woken. -/
theorem journals_apart (encode : ω → Except WireError Data) (resolver : Resolver) (registered : Bool) (key : JournalKey)
    (ops : List (Op ω β)) :
    let start : Feed β := init resolver registered
    let kept := share encode key start
    (∀ pre op post, ops = pre ++ op :: post → op.concerns (start.run encode pre).1 key = true →
      ∃ rest answer, kept ops = kept pre ++ op :: rest ∧ (start.run encode ops).2[pre.length]? = some answer ∧
        (start.run encode (kept ops)).2[(kept pre).length]? = some answer) ∧
    (∀ pre op, pre ++ [op] <+: ops → op.concerns (start.run encode pre).1 key = false →
      op.takes? (start.run encode pre).1 key = none → kept (pre ++ [op]) = kept pre) ∧
    (∀ pre, pre <+: ops → (start.run encode (kept pre)).1.wokenOn key = (start.run encode pre).1.wokenOn key) := by
  intro start kept
  have horderly : ∀ ops : List (Op ω β), (start.run encode ops).1.Orderly :=
    orderly_run encode (sound_init resolver registered) (orderly_init resolver registered)
  have halike : ∀ ops : List (Op ω β), Alike key (start.run encode ops).1 (start.run encode (kept ops)).1 :=
    alike_share encode key resolver registered
  refine ⟨?_, ?_, ?_⟩
  · rintro pre op post rfl hop
    let rest := share encode key ((start.run encode pre).1.step encode op).1 post
    have hkept : kept (pre ++ op :: post) = kept pre ++ op :: rest := by
      simp only [kept, rest, share_append, share, Op.part?, hop, if_true]
      rfl
    have hsame := same_step encode (halike pre) (horderly pre) (horderly (kept pre)) hop
    refine ⟨rest, ((start.run encode pre).1.step encode op).2, hkept, answer_run encode start pre op post, ?_⟩
    rw [hkept, answer_run, hsame.answer]
  · intro pre op _ hop htakes
    have hpart : op.part? (start.run encode pre).1 key = none := by
      rw [Op.part?, hop, htakes]
      rfl
    rw [show kept (pre ++ [op]) = _ from share_snoc encode key start pre op, hpart]
    exact List.append_nil (kept pre)
  · intro pre _
    exact (halike pre).wokenOn (horderly pre)

/-- the orders of another service; they share the settings with the orders of the maps -/
def queueKey : JournalKey := ⟨⟨"queue-service", "orders"⟩, 0⟩

/-- two services with orders: each has a reader, and the ones of the queue come and go -/
def twoServices : List (Op Data Data) :=
  [addOrder 0, .write queueKey 0 (.added [1] [1]), .startReader "r" ordersKey 1 oneBatch, .poll "r",
    .startReader "q" queueKey 1 oneBatch, .poll "q", .destroy queueKey, addOrder 1, .drop "q", .poll "r",
    .newest ordersKey]

/-- what remains of it for the maps -/
def oneService : List (Op Data Data) :=
  [addOrder 0, .startReader "r" ordersKey 1 oneBatch, .poll "r", addOrder 1, .poll "r", .newest ordersKey]

/-- the orders of the queue are written, read and torn down, and the reader of the maps is woken as without them -/
theorem journals_apart_orders :
    smallResolver.config? queueKey.ns = smallResolver.config? ordersKey.ns ∧
      share .ok ordersKey (init smallResolver true : Feed Data) twoServices = oneService ∧
      "r" ∈ (run .ok (init smallResolver true : Feed Data) (oneService.take 4)).1.wokenOn ordersKey ∧
      "r" ∈ (run .ok (init smallResolver true : Feed Data) (twoServices.take 8)).1.wokenOn ordersKey ∧
      ∃ answer, (run .ok (init smallResolver true : Feed Data) twoServices).2[10]? = some answer ∧
        (run .ok (init smallResolver true : Feed Data) oneService).2[5]? = some answer := by
  have hwritten : share .ok ordersKey (init smallResolver true : Feed Data) (twoServices.take 8) = oneService.take 4 := rfl
  have hread : share .ok ordersKey (init smallResolver true : Feed Data) (twoServices.take 10) = oneService.take 5 := rfl
  have hall : share .ok ordersKey (init smallResolver true : Feed Data) twoServices = oneService := rfl
  have hconcerns : Op.concerns (run .ok (init smallResolver true : Feed Data) (twoServices.take 10)).1 ordersKey
      (.newest ordersKey : Op Data Data) = true := rfl
  have hin : "r" ∈ (run .ok (init smallResolver true : Feed Data) (oneService.take 4)).1.wokenOn ordersKey :=
    mem_wokenOn.2 ⟨.reader parkedReader, rfl, rfl, by decide +kernel⟩
  obtain ⟨hanswers, -, hwoken⟩ := journals_apart .ok smallResolver true ordersKey twoServices
  obtain ⟨rest, answer, -, hanswer, hanswer'⟩ := hanswers (twoServices.take 10) (.newest ordersKey) [] rfl hconcerns
  have hsame := hwoken _ (List.take_prefix 8 twoServices)
  rw [hwritten] at hsame
  rw [hread, hall] at hanswer'
  refine ⟨rfl, hall, hin, hsame ▸ hin, answer, hanswer, hanswer'⟩

end Feed

end Changefeed
