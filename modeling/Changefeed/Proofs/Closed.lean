/-
What was closed stays closed. The containers that were torn down under a key keep their numbers, and so do the channels that
left it; whatever comes under the key later has a higher number. A container that was torn down changes only in the hands
of those who still hold it (`Op.alters`), and who registers on a key never gets a channel that was closed before.

Results:
- `keeps_step`, `keeps_run`: a container that was torn down stays as it was;
- `ages_step`, `ages_run`: the closed channels of a key only become more;
- `parked_since`: a parked reader was parked before, or is on a channel that was not closed then.
-/
import Changefeed.Proofs.Wakeup

namespace Changefeed

variable {ω β : Type}

/-! ## Containers -/

namespace Store

variable {α : Type} {s s' s'' : Store α} {handle : Handle}

/-- the container with a handle was torn down -/
def Retired (s : Store α) (handle : Handle) : Prop := handle.generation < (s.journal handle.key).closed.length

/-- if the container with a handle was torn down, it still is, and holds what it held -/
structure Keeps (handle : Handle) (s s' : Store α) : Prop where
  retired : s.Retired handle → s'.Retired handle
  same : s.Retired handle → s'.get? handle = s.get? handle

theorem Keeps.refl (handle : Handle) (s : Store α) : Keeps handle s s := ⟨id, fun _ => rfl⟩

theorem Keeps.trans (h : Keeps handle s s') (h' : Keeps handle s' s'') : Keeps handle s s'' :=
  ⟨fun hs => h'.retired (h.retired hs), fun hs => (h'.same (h.retired hs)).trans (h.same hs)⟩

theorem get?_of_retired (h : s.Retired handle) :
    s.get? handle = (s.journal handle.key).closed[handle.generation]? := by
  rw [get?, Generations.get?, if_neg (Nat.ne_of_lt h)]

theorem keeps_of_closed (h : (s.journal handle.key).closed <+: (s'.journal handle.key).closed) : Keeps handle s s' := by
  have hretired : s.Retired handle → s'.Retired handle := fun hs => Nat.lt_of_lt_of_le hs h.length_le
  refine ⟨hretired, fun hs => ?_⟩
  obtain ⟨more, hmore⟩ := h
  rw [get?_of_retired hs, get?_of_retired (hretired hs), ← hmore, List.getElem?_append_left hs]

theorem keeps_of_journal (h : s'.journal handle.key = s.journal handle.key) : Keeps handle s s' :=
  keeps_of_closed (by rw [h])

theorem keeps_put (s : Store α) (c : Container α) : Keeps handle s (s.put c) := by
  by_cases hk : handle.key = c.key
  · exact keeps_of_closed (by rw [journal_put hk.symm])
  · exact keeps_of_journal (journal_put_of_ne hk)

theorem keeps_discard (s : Store α) (key : JournalKey) : Keeps handle s (s.discard key).1 := by
  by_cases hk : handle.key = key
  · refine keeps_of_closed ?_
    rw [hk, journal_discard]
    exact List.prefix_append _ _
  · exact keeps_of_journal (journal_discard_of_ne s hk)

theorem keeps_opening (s : Store α) (key : JournalKey) (c : Container α) : Keeps handle s (s.opening key c) := by
  by_cases hk : handle.key = key
  · refine keeps_of_closed ?_
    rw [hk, journal_opening]
    exact List.prefix_append _ _
  · exact keeps_of_journal (journal_opening_of_ne s hk c)

/-- a container that is changed through its handle is none that others hold -/
theorem keeps_modify {h : Handle} {c c' : Container α} (hget : s.get? h = some c) (hc : h = handle → c' = c) :
    Keeps handle s (s.modify h fun _ => c') := by
  refine ⟨fun hs => ?_, fun _ => ?_⟩
  · by_cases hk : handle.key = h.key
    · rw [Retired, hk, journal_modify_self, Generations.length_modify, ← hk]
      exact hs
    · rw [Retired, journal_modify_of_ne s h hk]
      exact hs
  · rw [get?_modify]
    split
    next heq => rw [hget, heq, hget, hc heq.symm, Option.map_some]
    next => rfl

/-- the container that is torn down keeps its number -/
theorem retired_discard {key : JournalKey} {c : Container α} (hc : s.live? key = some c)
    (hhandle : s.handle? key = some handle) :
    (s.discard key).1.Retired handle ∧ (s.discard key).1.get? handle = some c := by
  have hopened : (s.journal key).opened = some c := hc
  have hhandle : handle = ⟨key, (s.journal key).closed.length⟩ := by
    simpa [handle?, Generations.openId?, hopened, eq_comm] using hhandle
  subst hhandle
  have hclosed : ((s.discard key).1.journal key).closed = (s.journal key).closed ++ [c] := by
    rw [journal_discard, Generations.close, hopened]
    rfl
  have hretired : (s.discard key).1.Retired ⟨key, (s.journal key).closed.length⟩ := by
    simp [Retired, hclosed]
  exact ⟨hretired, (get?_discard s key _).trans (get?_of_live hc)⟩

theorem Retired.not_live (h : s.Retired handle) (key : JournalKey) : s.handle? key ≠ some handle := by
  intro hhandle
  obtain ⟨rfl, -, hn⟩ := handle?_eq_some_iff.1 hhandle
  exact absurd hn (Nat.ne_of_lt h)

end Store

namespace Feed

open Store (Keeps)

section Containers

variable {encode : ω → Except WireError Data} {f : Feed β} {handle : Handle}

theorem keeps_container? (f : Feed β) (key : JournalKey) : Keeps handle f.store (f.container? key).1.store := by
  have hlook := container?_look f key
  generalize f.container? key = p at hlook
  cases hlook with
  | refused e => exact .refl handle f.store
  | absent => exact .refl handle f.store
  | found c => exact .refl handle f.store
  | begun c hr hn hc => exact Store.keeps_opening f.store key c

theorem keeps_provide {key : JournalKey} {config : StorageConfig} {store : Store EventRecord}
    {c : Container EventRecord} (h : f.store.provide key config = .ok (store, c)) : Keeps handle f.store store := by
  rcases Store.provide_ok h with ⟨-, rfl⟩ | ⟨-, -, rfl⟩
  · exact .refl handle _
  · exact Store.keeps_opening f.store key c

/-- **A container that was torn down changes only in the hands of those who hold it.** -/
theorem keeps_step (encode : ω → Except WireError Data) (f : Feed β) {op : Op ω β} (hop : op.alters handle = false) :
    Keeps handle f.store (f.step encode op).1.store := by
  have hkeeps : ∀ {appended tears s}, Leaves f op appended tears s → Keeps handle f.store s := by
    intro appended tears s h
    cases h with
    | same => exact .refl handle f.store
    | looked k => exact keeps_container? f k
    | @used k f' c c' a _ hp _ =>
      have hlook : Keeps handle f.store (f.container? k).1.store := keeps_container? f k
      rw [hp] at hlook
      exact hlook.trans (Store.keeps_put _ _)
    | held _ hc _ hquiet => exact Store.keeps_modify hc fun heq => hquiet (heq ▸ hop)
    | provided _ hp => exact keeps_provide hp
    | discarded _ => exact Store.keeps_discard f.store _
  exact hkeeps (step_leaves encode f op)

theorem keeps_run (encode : ω → Except WireError Data) (f : Feed β) {ops : List (Op ω β)}
    (hops : ∀ op ∈ ops, op.alters handle = false) : Keeps handle f.store (f.run encode ops).1.store := by
  induction ops generalizing f with
  | nil => exact .refl handle f.store
  | cons op ops ih =>
    have hstep := keeps_step encode f (hops op List.mem_cons_self)
    apply hstep.trans
    apply ih
    intro op' hop'
    exact hops op' (List.mem_cons_of_mem op hop')

end Containers

end Feed

/-! ## Channels -/

namespace WaitRegistry

variable {r r' r'' : WaitRegistry}

/-- the closed channels of a key have become more, if anything -/
def Ages (r r' : WaitRegistry) : Prop := ∀ key, (r.line key).closed.length ≤ (r'.line key).closed.length

theorem Ages.refl (r : WaitRegistry) : Ages r r := fun _ => le_rfl

theorem Ages.trans (h : Ages r r') (h' : Ages r' r'') : Ages r r'' := fun key => le_trans (h key) (h' key)

theorem ages_set (key : JournalKey) {g : Generations Channel} (hg : (r.line key).closed.length ≤ g.closed.length) :
    Ages r ⟨r.channels.set key g⟩ := by
  intro key'
  by_cases h : key' = key
  · rw [h, line_set]
    exact hg
  · rw [line_set_of_ne r h]

theorem ages_register (r : WaitRegistry) (key : JournalKey) : Ages r (r.register key).1 := by
  refine ages_set key ?_
  cases (r.line key).opened <;> simp [Generations.push]

theorem ages_release (r : WaitRegistry) (w : Waiter) : Ages r (r.release w) := by
  have hmodify : ((r.line w.key).modify w.channel fun c => { c with holders := c.holders - 1 }).closed.length =
      (r.line w.key).closed.length := by
    unfold Generations.modify
    split <;> simp
  refine ages_set w.key ?_
  rw [← hmodify]
  split
  · split
    · simp [Generations.close]
    · exact le_rfl
  · exact le_rfl

theorem ages_wake (r : WaitRegistry) (key : JournalKey) : Ages r (r.wake key) := by
  unfold wake
  split
  · exact .refl r
  · exact ages_set key le_rfl

theorem ages_cancel (r : WaitRegistry) (key : JournalKey) : Ages r (r.cancel key) := by
  unfold cancel
  split
  · exact .refl r
  · exact ages_set key (by simp [Generations.close])

end WaitRegistry

namespace Feed

open WaitRegistry (Ages)

section Channels

variable {encode : ω → Except WireError Data} {f : Feed β} {past : JournalKey → List EventRecord}

theorem ages_drop (f : Feed β) (id : String) : Ages f.waits (f.drop id).1.waits := by
  unfold drop
  split
  · exact .refl f.waits
  · next r _ =>
    cases r.parked with
    | none => exact .refl f.waits
    | some watch => exact WaitRegistry.ages_release f.waits watch.waiter
  · exact .refl f.waits

theorem ages_dropWaiter (f : Feed β) (name : String) : Ages f.waits (f.dropWaiter name).1.waits := by
  unfold dropWaiter
  split
  · exact .refl f.waits
  · exact WaitRegistry.ages_release f.waits _

theorem Enrolled.ages {r : Reader β} {f₀ : Feed β} {w : Waiter} (he : Enrolled f r f₀ w) : Ages f.waits f₀.waits := by
  cases he with
  | woken => exact .refl f.waits
  | first => exact WaitRegistry.ages_register f.waits r.key

theorem ages_poll (hring : f.Ringed) (id : String) : Ages f.waits (f.poll id).1.waits := by
  cases hjob : f.jobs.get? id with
  | none =>
    simp only [poll, hjob]
    exact .refl f.waits
  | some job =>
    cases job with
    | watch owner watch polled =>
      simp only [poll, hjob]
      split <;> exact .refl f.waits
    | reader r =>
      obtain ⟨f', p, heq, hpolled⟩ := poll_polled hring hjob
      rw [heq]
      cases hpolled with
      | asleep => exact .refl f.waits
      | ended f₀ f₁ w result he ho =>
        rw [ho.frame]
        exact he.ages.trans (WaitRegistry.ages_release f₀.waits w)
      | parked f₀ f₁ w watch position b he ho =>
        rw [ho.frame]
        exact he.ages

/-- **The closed channels of a key only become more.** -/
theorem ages_step (encode : ω → Except WireError Data) (hkeyed : f.store.Keyed) (hring : f.Ringed) (op : Op ω β) :
    Ages f.waits (f.step encode op).1.waits := by
  cases hop : op.enlists with
  | false =>
    have hheard := (step_apart encode hkeyed hop).heard
    generalize (f.step encode op).1.waits = r at hheard
    cases hheard with
    | nothing => exact .refl f.waits
    | wake k => exact WaitRegistry.ages_wake f.waits k
    | cancel k => exact WaitRegistry.ages_cancel f.waits k
  | true =>
    cases op with
    | startReader id k s b => exact ages_drop f id
    | poll id =>
      rw [step_poll]
      exact ages_poll hring id
    | drop id => exact ages_drop f id
    | addWaiter name k => exact (ages_dropWaiter f name).trans (WaitRegistry.ages_register _ k)
    | startWatch id name =>
      rw [step_startWatch]
      unfold startWatch
      split
      · exact .refl f.waits
      · exact ages_drop f id
    | dropWaiter name => exact ages_dropWaiter f name
    | _ => cases hop

theorem ages_run (encode : ω → Except WireError Data) (h : f.Sound past) (ops : List (Op ω β)) :
    Ages f.waits (f.run encode ops).1.waits := by
  induction ops generalizing f past with
  | nil => exact .refl f.waits
  | cons op ops ih =>
    have hstep := ages_step encode h.keyed h.history.ringed op
    exact hstep.trans (ih (sound_step encode h op))

/-- **A parked reader was parked before with the same registration, or is on a channel that was not closed then.** -/
theorem parked_since (h : f.Sound past) {ops : List (Op ω β)} {id : String} {r : Reader β} {watch : Watch}
    (hp : (f.run encode ops).1.Parked id r watch) :
    (∃ r₀ watch₀, f.Parked id r₀ watch₀ ∧ watch₀.waiter = watch.waiter) ∨
      (f.waits.line watch.waiter.key).closed.length ≤ watch.waiter.channel := by
  induction ops using List.reverseRecOn generalizing r watch with
  | nil => exact Or.inl ⟨r, watch, hp, rfl⟩
  | append_singleton ops op ih =>
    have hsound := sound_run encode h ops
    have hages := ages_run encode h ops
    rw [run_snoc] at hp
    cases step_stands encode hsound.keyed hsound.history.ringed hp.job with
    | other _ hr => exact ih ⟨hr, hp.parked⟩
    | still _ _ hr => exact ih ⟨hr, hp.parked⟩
    | started _ => cases hp.parked
    | parked _ hr he ho _ =>
      cases hp.parked
      rw [ho.watch]
      cases he with
      | woken watch' hp' _ =>
        have hbefore := ih ⟨hr, hp'⟩
        exact hbefore
      | first _ => exact Or.inr (hages _)

end Channels

end Feed

end Changefeed
