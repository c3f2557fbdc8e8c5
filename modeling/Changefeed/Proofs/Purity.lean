/-
Queries are pure. A query creates the journal that it asks for, if there is none and the settings admit one; it does so also
where it is refused then. Nobody can tell: as long as the settings stay the same, any of the queries of a run can be left
out, and every other operation on the journals has the same answer and wakes the same readers. The run without the queries
has the leaner store (`Leaner`). What it has, the other has too, and what it lacks is empty in the other, and is created
exactly like that as soon as it is needed.

The containers themselves are another matter. Who asks the store which containers there are, or keeps the handle of one, can
tell; and one that is created past the settings can differ from the one that a query would have created.

Results:
- `level_container?`: looking for a journal gives the same container in both stores;
- `level_query`, `level_write`, `level_cleanup`, `level_poll`: so everything that is done with it has the same answer;
- `level_step`, `leaner_skip`: one operation in both runs, and a query in one of them;
- `queries_pure`: a run without some of its queries.
-/
import Changefeed.Proofs.Refusals

namespace Changefeed

variable {ω β γ : Type}

/-- the journal that the operation asks something of -/
def Op.queried? : Op ω β → Option JournalKey
  | .newest key => some key
  | .oldest key => some key
  | .subscribe key => some key
  | .checkPosition key _ => some key
  | .shouldWait key _ => some key
  | .readMany key _ _ => some key
  | _ => none

/-- the operation is not about journals but about the containers that the store has -/
def Op.onStore : Op ω β → Bool
  | .wakeContainer _ => true
  | .find _ => true
  | .provide .. => true
  | .discard _ => true
  | .inPartition _ => true
  | .inspect _ => true
  | .append .. => true
  | .readOne .. => true
  | .checkIn .. => true
  | .shouldWaitIn .. => true
  | .cleanupIn .. => true
  | _ => false

/-- the operation creates no container past the settings, and does nothing to one by its handle -/
def Op.aboveBoard : Op ω β → Bool
  | .provide .. => false
  | .append .. => false
  | .cleanupIn .. => false
  | .wakeContainer _ => false
  | _ => true

namespace Store

variable {α : Type} {s : Store α}

theorem live?_put (s : Store α) (c : Container α) (k : JournalKey) :
    (s.put c).live? k = if k = c.key then some c else s.live? k := by
  split
  · next hk => rw [live?, hk, journal_put rfl]
  · next hk => rw [live?, journal_put_of_ne hk, live?]

theorem live?_discard_eq (s : Store α) (key k : JournalKey) :
    (s.discard key).1.live? k = if k = key then none else s.live? k := by
  split
  · next hk => rw [hk, live?_discard]
  · next hk => rw [live?, journal_discard_of_ne s hk, live?]

/-- putting a container back as it was changes nothing -/
theorem live?_modify_same {handle : Handle} {c : Container α} (hc : s.get? handle = some c) (k : JournalKey) :
    (s.modify handle fun _ => c).live? k = s.live? k := by
  by_cases hk : k = handle.key
  · subst hk
    rw [live?, journal_modify_self]
    by_cases hn : handle.generation = (s.journal handle.key).closed.length
    · rw [get?_eq_live? hn, live?] at hc
      rw [Generations.modify, if_pos hn, live?, hc]
      rfl
    · exact Generations.opened_modify_of_ne _ hn _
  · rw [live?, journal_modify_of_ne s handle hk, live?]

end Store

namespace Feed

section Leaner

variable {encode : ω → Except WireError Data} {f f' g g' : Feed β} {key : JournalKey}

/-- what two feeds have under a key: the same, or the first has a container that the second does not have yet and would create
exactly like that -/
def Owed (f g : Feed β) (key : JournalKey) : Prop :=
  g.store.live? key = f.store.live? key ∨
  ∃ c, f.store.live? key = some c ∧ g.store.live? key = none ∧ (g.container? key).2 = .ok (some c)

/-- the second feed is the first one, but may lack containers that it would create when they are needed -/
structure Leaner (f g : Feed β) : Prop where
  frame : g = { f with store := g.store }
  owed : ∀ key, Owed f g key

/-- two outcomes of an operation with the same answer, of which the second has the leaner feed -/
structure Level (p p' : Feed β × γ) : Prop where
  feed : Leaner p.1 p'.1
  answer : p'.2 = p.2

theorem Leaner.refl (f : Feed β) : Leaner f f := ⟨rfl, fun _ => Or.inl rfl⟩

theorem Leaner.store (h : Leaner f g) : ∃ store, g = { f with store } := ⟨_, h.frame⟩

theorem Leaner.resolver (h : Leaner f g) : g.resolver = f.resolver := by rw [h.frame]

theorem Leaner.registered (h : Leaner f g) : g.registered = f.registered := by rw [h.frame]

/-- two outcomes with the same answer, taken apart -/
theorem Level.parts {p p' : Feed β × γ} (h : Level p p') : ∃ f g a, p = (f, a) ∧ p' = (g, a) ∧ Leaner f g :=
  ⟨p.1, p'.1, p.2, rfl, Prod.ext rfl h.answer, h.feed⟩

theorem level_of_answer {δ : Type} {p p' : Feed β × Except JournalError δ} (h : Level p p') (give : δ → Answer β) :
    Level (answer give p) (answer give p') := by
  obtain ⟨f₁, g₁, a, rfl, rfl, h₁⟩ := h.parts
  cases a <;> exact ⟨h₁, rfl⟩

theorem Settled.refl (ns : Namespace) (f : Feed β) : Settled ns f f := ⟨rfl, rfl⟩

/-- what is settled since the start is settled in between -/
theorem Settled.between {ns : Namespace} {start : Feed β} (hf : Settled ns start f) (hf' : Settled ns start f') :
    Settled ns f f' :=
  ⟨hf'.config.trans hf.config.symm, hf'.partitions.trans hf.partitions.symm⟩

/-! ## Looking for a journal -/

/-- what a look for a journal gives is told by what is there and by the settings -/
theorem container?_snd (hr : g.registered = f.registered) (hs : Settled key.ns f g)
    (hl : g.store.live? key = f.store.live? key) : (g.container? key).2 = (f.container? key).2 := by
  unfold container?
  rw [hr, hl, hs.config, hs.partitions]
  split
  · rfl
  · cases hc : f.store.live? key with
    | some c => rfl
    | none =>
      cases f.resolver.enabledConfig? key.ns with
      | none => rfl
      | some config =>
        simp only
        cases config.split f.resolver.partitions with
        | error e => rfl
        | ok storage =>
          simp only [Store.provide, hl, hc]
          cases Container.create key storage <;> rfl

theorem registered_of_container? {c : Container EventRecord} (h : (g.container? key).2 = .ok (some c)) :
    g.registered = true := by
  have hlook := container?_look g key
  generalize g.container? key = p at hlook h
  cases hlook with
  | found _ hr => exact hr
  | begun _ hr => exact hr
  | _ => cases h

/-- what is owed stays so while the settings and the containers under the key stay the same -/
theorem Owed.keep (h : Owed f g key) (hf : f'.store.live? key = f.store.live? key)
    (hg : g'.store.live? key = g.store.live? key) (hr : g.registered = true → g'.registered = true)
    (hs : Settled key.ns g g') : Owed f' g' key := by
  rcases h with hsame | ⟨c, hc, hnone, hdue⟩
  · exact Or.inl (by rw [hf, hg, hsame])
  · refine Or.inr ⟨c, hf.trans hc, hg.trans hnone, ?_⟩
    have hreg := registered_of_container? hdue
    rw [container?_snd ((hr hreg).trans hreg.symm) hs hg, hdue]

theorem live?_container?_of_ne {k : JournalKey} (hk : k ≠ key) :
    (f.container? key).1.store.live? k = f.store.live? k := by
  have hlook := container?_look f key
  generalize f.container? key = p at hlook
  cases hlook with
  | begun c => rw [Store.live?, journal_beginWith_of_ne f hk, Store.live?]
  | _ => rfl

theorem live?_container? {c : Container EventRecord} (h : (f.container? key).2 = .ok (some c)) :
    (f.container? key).1.store.live? key = some c := by
  have hfound : f.container? key = ((f.container? key).1, .ok (some c)) := Prod.ext rfl h
  exact (live_of_container? hfound).2.1

/-- a look that gives no container changes nothing -/
theorem container?_fst (h : ¬ ∃ c, (f.container? key).2 = .ok (some c)) : (f.container? key).1 = f := by
  have hlook := container?_look f key
  generalize f.container? key = p at hlook h
  cases hlook with
  | begun c => exact absurd ⟨c, rfl⟩ h
  | _ => rfl

theorem settled_container? (f : Feed β) (key : JournalKey) (ns : Namespace) : Settled ns f (f.container? key).1 := by
  constructor <;> rw [container?_frame]

theorem container?_snd_eq (h : Leaner f g) (key : JournalKey) : (g.container? key).2 = (f.container? key).2 := by
  rcases h.owed key with hsame | ⟨c, hc, -, hdue⟩
  · exact container?_snd h.registered ⟨by rw [h.resolver], by rw [h.resolver]⟩ hsame
  · have hreg := registered_of_container? hdue
    rw [hdue, container?_live (h.registered.symm.trans hreg) hc]

/-- **Looking for a journal gives the same in both feeds**, and its container is owed no longer. -/
theorem level_container? (h : Leaner f g) (key : JournalKey) : Level (f.container? key) (g.container? key) := by
  have hanswer := container?_snd_eq h key
  refine ⟨⟨?_, ?_⟩, hanswer⟩
  · rw [container?_frame f, container?_frame g, h.frame]
  · intro k
    by_cases hk : k = key
    · subst hk
      by_cases hfound : ∃ c, (f.container? k).2 = .ok (some c)
      · obtain ⟨c, hc⟩ := hfound
        exact Or.inl (by rw [live?_container? hc, live?_container? (hanswer.trans hc)])
      · rw [container?_fst hfound, container?_fst (hanswer ▸ hfound)]
        exact h.owed k
    · refine (h.owed k).keep (live?_container?_of_ne hk) (live?_container?_of_ne hk) ?_ (settled_container? g key k.ns)
      rw [container?_frame]
      exact id

/-- if only the first feed looks for a journal, a container that it creates is owed to the second -/
theorem leaner_container? (h : Leaner f g) (key : JournalKey) : Leaner (f.container? key).1 g := by
  have hanswer := container?_snd_eq h key
  refine ⟨?_, ?_⟩
  · rw [container?_frame f]
    exact h.frame
  · intro k
    by_cases hk : k = key
    · subst hk
      by_cases hfound : ∃ c, (f.container? k).2 = .ok (some c)
      · obtain ⟨c, hc⟩ := hfound
        cases hl : g.store.live? k with
        | some d =>
          have hreg := registered_of_container? (hanswer.trans hc)
          have hd : some d = some c := by
            rw [container?_live hreg hl, hc] at hanswer
            exact Except.ok.inj hanswer
          exact Or.inl (by rw [live?_container? hc, hl, hd])
        | none => exact Or.inr ⟨c, live?_container? hc, hl, hanswer.trans hc⟩
      · rw [container?_fst hfound]
        exact h.owed k
    · exact (h.owed k).keep (live?_container?_of_ne hk) rfl id (.refl k.ns g)

theorem level_container (h : Leaner f g) (key : JournalKey) : Level (f.container key) (g.container key) := by
  obtain ⟨f₁, g₁, a, hp, hp', h₁⟩ := (level_container? h key).parts
  simp only [container, hp, hp']
  rcases a with e | (_ | c) <;> exact ⟨h₁, rfl⟩

/-- **A question to a journal has the same answer in both feeds.** -/
theorem level_query (h : Leaner f g) (key : JournalKey) (ask : Container EventRecord → Except JournalError γ) :
    Level (f.query key ask) (g.query key ask) := by
  obtain ⟨f₁, g₁, a, hp, hp', h₁⟩ := (level_container h key).parts
  simp only [query, hp, hp']
  rcases a with e | c <;> exact ⟨h₁, rfl⟩

/-! ## Records -/

/-- everything but the store and the settings can be changed in both -/
theorem Leaner.carry (h : Leaner f g) (waits : WaitRegistry) (written : Table EventKind ℕ) (waiters : Table String Waiter)
    (jobs : Table String (Job β)) :
    Leaner { f with waits, written, waiters, jobs } { g with waits, written, waiters, jobs } := by
  refine ⟨by rw [h.frame], fun k => (h.owed k).keep rfl rfl id ⟨rfl, rfl⟩⟩

/-- both feeds have the same under a key now, and are as they were under all others -/
theorem Leaner.level (h : Leaner f g) (key : JournalKey) {store store' : Store EventRecord}
    (hsame : store'.live? key = store.live? key)
    (hf : ∀ k, k ≠ key → store.live? k = f.store.live? k) (hg : ∀ k, k ≠ key → store'.live? k = g.store.live? k) :
    Leaner { f with store } { g with store := store' } := by
  refine ⟨by rw [h.frame], fun k => ?_⟩
  by_cases hk : k = key
  · subst hk
    exact Or.inl hsame
  · exact (h.owed k).keep (hf k hk) (hg k hk) id ⟨rfl, rfl⟩

theorem leaner_put (h : Leaner f g) (c : Container EventRecord) :
    Leaner { f with store := f.store.put c } { g with store := g.store.put c } := by
  refine h.level c.key ?_ ?_ ?_
  · rw [Store.live?_put, Store.live?_put, if_pos rfl, if_pos rfl]
  · intro k hk
    rw [Store.live?_put, if_neg hk]
  · intro k hk
    rw [Store.live?_put, if_neg hk]

theorem leaner_discard (h : Leaner f g) (key : JournalKey) :
    Leaner { f with store := (f.store.discard key).1 } { g with store := (g.store.discard key).1 } := by
  refine h.level key ?_ ?_ ?_
  · rw [Store.live?_discard, Store.live?_discard]
  · intro k hk
    rw [Store.live?_discard_eq, if_neg hk]
  · intro k hk
    rw [Store.live?_discard_eq, if_neg hk]

theorem level_write (encode : ω → Except WireError Data) (h : Leaner f g) (key : JournalKey) (now : ℕ)
    (change : Change ω ω) : Level (f.write encode key now change) (g.write encode key now change) := by
  obtain ⟨f₁, g₁, a, hp, hp', h₁⟩ := (level_container? h key).parts
  simp only [write, hp, hp']
  rcases a with e | (_ | c)
  · exact ⟨h₁, rfl⟩
  · exact ⟨h₁, rfl⟩
  · cases change.encode encode encode with
    | error e => exact ⟨h₁, rfl⟩
    | ok record =>
      obtain ⟨store, rfl⟩ := h₁.store
      exact ⟨(leaner_put h₁ (c.append record now).1).carry _ _ _ _, rfl⟩

theorem level_cleanup (h : Leaner f g) (key : JournalKey) (now : ℕ) :
    Level (f.cleanup key now) (g.cleanup key now) := by
  obtain ⟨f₁, g₁, a, hp, hp', h₁⟩ := (level_container h key).parts
  simp only [cleanup, hp, hp']
  rcases a with e | c
  · exact ⟨h₁, rfl⟩
  · exact ⟨leaner_put h₁ _, rfl⟩

theorem leaner_destroy (h : Leaner f g) (key : JournalKey) : Leaner (f.destroy key) (g.destroy key) := by
  obtain ⟨store, rfl⟩ := h.store
  unfold destroy
  simp only
  split
  · exact h
  · exact (leaner_discard h key).carry _ _ _ _

/-! ## Readers -/

theorem level_turns (h : Leaner f g) (w : Waiter) (n : ℕ) (s : Int) (b : Batch EventRecord β) :
    Level (turns w n f s b) (turns w n g s b) := by
  have hwaits : ∀ {f g : Feed β}, Leaner f g → g.waits.isCancelled w = f.waits.isCancelled w ∧
      g.waits.watch w = f.waits.watch w := by
    intro f g h
    rw [h.frame]
    exact ⟨rfl, rfl⟩
  obtain ⟨hfeed, hanswer⟩ := turns_congr hwaits
    (fun ask h => ⟨(level_query h w.key ask).feed, (level_query h w.key ask).answer⟩) n h s b
  exact ⟨hfeed, hanswer⟩

theorem level_advance (h : Leaner f g) (id : String) (w : Waiter) (r : Reader β) :
    Level (f.advance id w r) (g.advance id w r) := by
  obtain ⟨f₁, g₁, t, hp, hp', h₁⟩ := (level_turns h w 2 r.position r.batch).parts
  simp only [advance, hp, hp']
  obtain ⟨store, rfl⟩ := h₁.store
  cases t with
  | finished result => exact ⟨h₁.carry _ _ _ _, rfl⟩
  | parked watch position b => exact ⟨h₁.carry _ _ _ _, rfl⟩
  | again position b => exact ⟨h₁.carry _ _ _ _, rfl⟩

/-- **A poll has the same outcome in both feeds.** -/
theorem level_poll (h : Leaner f g) (id : String) : Level (f.poll id) (g.poll id) := by
  obtain ⟨store, rfl⟩ := h.store
  unfold poll
  simp only
  cases f.jobs.get? id with
  | none => exact ⟨h, rfl⟩
  | some job =>
    cases job with
    | reader r =>
      have hpolled : Level (f.pollReader id r) ({ f with store }.pollReader id r) := by
        unfold pollReader
        cases r.parked with
        | some watch =>
          simp only
          split
          · exact level_advance h id watch.waiter r
          · exact ⟨h, rfl⟩
        | none => exact level_advance (h.carry (f.waits.register r.key).1 _ _ _) id _ r
      obtain ⟨f₁, g₁, p, hp, hp', h₁⟩ := hpolled.parts
      simp only [hp, hp']
      exact ⟨h₁, rfl⟩
    | watch owner watch polled =>
      simp only
      split <;> exact ⟨h.carry _ _ _ _, rfl⟩

theorem level_drop (h : Leaner f g) (id : String) : Level (f.drop id) (g.drop id) := by
  obtain ⟨store, rfl⟩ := h.store
  unfold drop
  simp only
  cases f.jobs.get? id with
  | none => exact ⟨h, rfl⟩
  | some job => cases job <;> exact ⟨h.carry _ _ _ _, rfl⟩

theorem level_dropWaiter (h : Leaner f g) (name : String) : Level (f.dropWaiter name) (g.dropWaiter name) := by
  obtain ⟨store, rfl⟩ := h.store
  unfold dropWaiter
  simp only
  cases f.waiters.get? name with
  | none => exact ⟨h, rfl⟩
  | some w => exact ⟨h.carry _ _ _ _, rfl⟩

theorem leaner_startReader (h : Leaner f g) (id : String) (key : JournalKey) (s : Int) (b : Batch EventRecord β) :
    Leaner (f.startReader id key s b) (g.startReader id key s b) := by
  obtain ⟨f₁, g₁, a, hp, hp', h₁⟩ := (level_drop h id).parts
  simp only [startReader, hp, hp']
  obtain ⟨store, rfl⟩ := h₁.store
  exact h₁.carry _ _ _ _

theorem level_startWatch (h : Leaner f g) (id name : String) : Level (f.startWatch id name) (g.startWatch id name) := by
  obtain ⟨f₁, g₁, a, hp, hp', h₁⟩ := (level_drop h id).parts
  obtain ⟨store, rfl⟩ := h.store
  unfold startWatch
  simp only
  cases f.waiters.get? name with
  | none => exact ⟨h, rfl⟩
  | some w =>
    simp only [hp, hp']
    obtain ⟨store, rfl⟩ := h₁.store
    exact ⟨h₁.carry _ _ _ _, rfl⟩

theorem level_addWaiter (h : Leaner f g) (name : String) (key : JournalKey) :
    Level (f.addWaiter name key) (g.addWaiter name key) := by
  obtain ⟨f₁, g₁, a, hp, hp', h₁⟩ := (level_dropWaiter h name).parts
  simp only [addWaiter, hp, hp']
  obtain ⟨store, rfl⟩ := h₁.store
  exact ⟨h₁.carry _ _ _ _, rfl⟩

/-! ## Every operation -/

/-- new settings that give every journal what it had -/
theorem leaner_resolver (h : Leaner f g) {resolver : Resolver} (hs : ∀ ns, Settled ns f { f with resolver }) :
    Leaner { f with resolver } { g with resolver } := by
  refine ⟨by rw [h.frame], fun k => (h.owed k).keep rfl rfl id ⟨?_, ?_⟩⟩
  · rw [h.resolver]
    exact (hs k.ns).config
  · rw [h.resolver]
    exact (hs k.ns).partitions

/-- a container that is only looked at -/
theorem leaner_onHandle (h : Leaner f g) (handle : Handle)
    {act : Container EventRecord → Container EventRecord × Except JournalError (Answer β)} (hact : ∀ c, (act c).1 = c) :
    Leaner (f.onHandle handle act).1 (g.onHandle handle act).1 := by
  have hlive : ∀ (f : Feed β) k, (f.onHandle handle act).1.store.live? k = f.store.live? k := by
    intro f k
    unfold onHandle
    cases hc : f.store.get? handle with
    | none => rfl
    | some c =>
      simp only [hact c]
      exact Store.live?_modify_same hc k
  have hframe : ∀ f : Feed β, (f.onHandle handle act).1 = { f with store := (f.onHandle handle act).1.store } := by
    intro f
    unfold onHandle
    split <;> rfl
  refine ⟨?_, fun k => ?_⟩
  · rw [hframe f, hframe g, h.frame]
  · refine (h.owed k).keep (hlive f k) (hlive g k) ?_ ?_
    · rw [hframe g]
      exact id
    · rw [hframe g]
      exact ⟨rfl, rfl⟩

/-- what asks something of a journal looks for it, and asks its container -/
theorem step_queried (encode : ω → Except WireError Data) {op : Op ω β} (hop : op.queried? = some key) :
    ∃ (γ : Type) (ask : Container EventRecord → Except JournalError γ) (give : γ → Answer β),
      ∀ f : Feed β, f.step encode op = answer give (f.query key ask) := by
  cases op with
  | newest k => cases hop; exact ⟨_, _, _, fun f => rfl⟩
  | oldest k => cases hop; exact ⟨_, _, _, fun f => rfl⟩
  | subscribe k => cases hop; exact ⟨_, _, _, fun f => by rw [step, subscribe_eq]⟩
  | checkPosition k s => cases hop; exact ⟨_, _, _, fun f => rfl⟩
  | shouldWait k s => cases hop; exact ⟨_, _, _, fun f => rfl⟩
  | readMany k s b => cases hop; exact ⟨_, _, _, fun f => rfl⟩
  | _ => cases hop

/-- **One operation in both feeds.** The first stays ahead of the second, and both answer alike, unless the operation is about
the containers of the store. -/
theorem level_step (encode : ω → Except WireError Data) (h : Leaner f g) {op : Op ω β} (hop : op.aboveBoard = true)
    (hs : ∀ ns, Settled ns f (f.step encode op).1) :
    Leaner (f.step encode op).1 (g.step encode op).1 ∧
      (op.onStore = false → (g.step encode op).2 = (f.step encode op).2) := by
  have hlevel : Level (f.step encode op) (g.step encode op) →
      Leaner (f.step encode op).1 (g.step encode op).1 ∧
        (op.onStore = false → (g.step encode op).2 = (f.step encode op).2) := fun h => ⟨h.feed, fun _ => h.answer⟩
  cases hqueried : op.queried? with
  | some key =>
    obtain ⟨γ, ask, give, hstep⟩ := step_queried encode hqueried
    refine hlevel ?_
    rw [hstep, hstep]
    exact level_of_answer (level_query h key ask) give
  | none =>
    cases op with
    | write k now change => exact hlevel (level_of_answer (level_write encode h k now change) _)
    | cleanup k now => exact hlevel (level_of_answer (level_cleanup h k now) _)
    | destroy k => exact hlevel ⟨leaner_destroy h k, rfl⟩
    | startReader id k s b => exact hlevel ⟨leaner_startReader h id k s b, rfl⟩
    | poll id =>
      obtain ⟨f₁, g₁, p, hp, hp', h₁⟩ := (level_poll h id).parts
      refine hlevel ?_
      simp only [step, hp, hp']
      cases p <;> exact ⟨h₁, rfl⟩
    | drop id =>
      obtain ⟨f₁, g₁, a, hp, hp', h₁⟩ := (level_drop h id).parts
      refine hlevel ?_
      simp only [step, hp, hp']
      exact ⟨h₁, rfl⟩
    | dropWaiter name =>
      obtain ⟨f₁, g₁, a, hp, hp', h₁⟩ := (level_dropWaiter h name).parts
      refine hlevel ?_
      simp only [step, hp, hp']
      exact ⟨h₁, rfl⟩
    | addWaiter name k =>
      obtain ⟨f₁, g₁, w, hp, hp', h₁⟩ := (level_addWaiter h name k).parts
      simp only [step, hp, hp']
      refine ⟨h₁, fun _ => ?_⟩
      rw [h₁.frame]
    | startWatch id name =>
      obtain ⟨f₁, g₁, a, hp, hp', h₁⟩ := (level_startWatch h id name).parts
      simp only [step, hp, hp']
      cases a <;> exact ⟨h₁, fun _ => rfl⟩
    | setRegistry registry =>
      refine hlevel ⟨?_, rfl⟩
      simp only [step, h.resolver]
      exact leaner_resolver h hs
    | setVersion version =>
      refine hlevel ⟨?_, rfl⟩
      simp only [step, h.resolver]
      exact leaner_resolver h hs
    | setPartitions partitions =>
      refine hlevel ⟨?_, rfl⟩
      simp only [step, h.resolver]
      exact leaner_resolver h hs
    | registerStore =>
      refine hlevel ⟨⟨?_, fun k => (h.owed k).keep rfl rfl (fun _ => rfl) ⟨rfl, rfl⟩⟩, ?_⟩
      · simp only [step]
        rw [h.frame]
      · simp only [step, h.registered]
    | discard k => exact ⟨leaner_discard h k, fun hno => by cases hno⟩
    | inspect handle => exact ⟨leaner_onHandle h handle fun _ => rfl, fun hno => by cases hno⟩
    | readOne handle s => exact ⟨leaner_onHandle h handle fun _ => rfl, fun hno => by cases hno⟩
    | checkIn handle s => exact ⟨leaner_onHandle h handle fun _ => rfl, fun hno => by cases hno⟩
    | shouldWaitIn handle s => exact ⟨leaner_onHandle h handle fun _ => rfl, fun hno => by cases hno⟩
    | find k => exact ⟨h, fun hno => by cases hno⟩
    | inPartition part => exact ⟨h, fun hno => by cases hno⟩
    | provide k config => cases hop
    | append handle record now => cases hop
    | cleanupIn handle now => cases hop
    | wakeContainer handle => cases hop
    | wake k =>
      obtain ⟨store, rfl⟩ := h.store
      exact hlevel ⟨h.carry _ _ _ _, rfl⟩
    | cancel k =>
      obtain ⟨store, rfl⟩ := h.store
      exact hlevel ⟨h.carry _ _ _ _, rfl⟩
    | waiterCancelled name =>
      obtain ⟨store, rfl⟩ := h.store
      refine hlevel ?_
      simp only [step, waiterCancelled?]
      split <;> exact ⟨h, rfl⟩
    | storageConfig config =>
      obtain ⟨store, rfl⟩ := h.store
      refine hlevel ?_
      simp only [step]
      cases config.split f.resolver.partitions <;> exact ⟨h, rfl⟩
    | waitKey k => exact ⟨h, fun _ => rfl⟩
    | hasJournal ns => exact ⟨h, fun _ => by simp only [step, h.resolver]⟩
    | journalConfig ns => exact ⟨h, fun _ => by simp only [step, h.resolver]⟩
    | partitionCount => exact ⟨h, fun _ => by simp only [step, h.resolver]⟩
    | storeService => exact ⟨h, fun _ => by simp only [step, h.registered]⟩
    | _ => cases hqueried

/-- **A query can be left out**: the feed that did not see it stays the leaner one. -/
theorem leaner_skip (encode : ω → Except WireError Data) (h : Leaner f g) {op : Op ω β} (hop : op.queried?.isSome = true) :
    Leaner (f.step encode op).1 g := by
  obtain ⟨key, hkey⟩ := Option.isSome_iff_exists.1 hop
  obtain ⟨γ, ask, give, hstep⟩ := step_queried encode hkey
  rw [hstep, answer_fst, query_fst]
  exact leaner_container? h key

end Leaner

/-! ## Runs without some of their queries -/

/-- what remains of a run without the operations that are marked -/
def unmarked (ops : List (Op ω β × Bool)) : List (Op ω β) := (ops.filter fun op => !op.2).map Prod.fst

theorem unmarked_append (ops ops' : List (Op ω β × Bool)) : unmarked (ops ++ ops') = unmarked ops ++ unmarked ops' := by
  simp [unmarked]

/-- the settings let every journal be created as before -/
def Steady (f f' : Feed β) : Prop := ∀ ns, Settled ns f f'

section Runs

variable {encode : ω → Except WireError Data} {start : Feed β} {ops : List (Op ω β × Bool)}

/-- **The run without the queries has the leaner feed.** -/
theorem leaner_run (hops : ∀ op ∈ ops, op.1.aboveBoard = true)
    (hmarked : ∀ op ∈ ops, op.2 = true → op.1.queried?.isSome = true)
    (hsteady : ∀ mid, mid <+: ops → Steady start (start.run encode (mid.map Prod.fst)).1) :
    Leaner (start.run encode (ops.map Prod.fst)).1 (start.run encode (unmarked ops)).1 := by
  induction ops using List.reverseRecOn with
  | nil => exact .refl start
  | append_singleton ops op ih =>
    have hprefix : ops <+: ops ++ [op] := List.prefix_append ops [op]
    have hrun := ih (fun op' hop' => hops op' (List.mem_append_left _ hop'))
      (fun op' hop' => hmarked op' (List.mem_append_left _ hop')) fun mid hmid => hsteady mid (hmid.trans hprefix)
    have hlast : op ∈ ops ++ [op] := List.mem_append_right ops (List.mem_singleton.2 rfl)
    obtain ⟨op, marked⟩ := op
    rw [List.map_append, List.map_singleton, run_snoc, unmarked_append]
    cases marked with
    | true =>
      rw [show unmarked [(op, true)] = [] from rfl, List.append_nil]
      exact leaner_skip encode hrun (hmarked _ hlast rfl)
    | false =>
      rw [show unmarked [(op, false)] = [op] from rfl, run_snoc]
      refine (level_step encode hrun (hops _ hlast) fun ns => ?_).1
      have hafter := hsteady _ (List.prefix_refl _) ns
      rw [List.map_append, List.map_singleton, run_snoc] at hafter
      exact (hsteady ops hprefix ns).between hafter

end Runs

/-- **Queries are pure.** Take any run in which the settings of the journals stay the same and nobody goes past them to a
container, from any state that a run can reach, and leave out any of its queries. Then
- every other operation on the journals gives the same answer;
- after every operation, the same jobs are woken;
- nothing differs at the end but the store; and that only in containers that are empty, and that a journal without them
  would create the same when it is needed. -/
theorem queries_pure (encode : ω → Except WireError Data) (resolver : Resolver) (registered : Bool)
    (past : List (Op ω β)) (ops : List (Op ω β × Bool)) :
    let start : Feed β := (run encode (init resolver registered) past).1
    let all := fun ops : List (Op ω β × Bool) => start.run encode (ops.map Prod.fst)
    let rest := fun ops : List (Op ω β × Bool) => start.run encode (unmarked ops)
    (∀ op ∈ ops, op.1.aboveBoard = true) →
    (∀ op ∈ ops, op.2 = true → op.1.queried?.isSome = true) →
    (∀ mid, mid <+: ops → Steady start (all mid).1) →
    (∀ pre op post, ops = pre ++ (op, false) :: post → op.onStore = false →
      ∃ answer, (all ops).2[pre.length]? = some answer ∧ (rest ops).2[(unmarked pre).length]? = some answer) ∧
    (∀ pre, pre <+: ops → (rest pre).1.wokenJobs = (all pre).1.wokenJobs) ∧
    (rest ops).1 = { (all ops).1 with store := (rest ops).1.store } ∧
    ∀ key, (rest ops).1.store.live? key = (all ops).1.store.live? key ∨
      (rest ops).1.store.live? key = none ∧ ∃ c, (all ops).1.store.live? key = some c ∧ New key c ∧
        ((rest ops).1.container? key).2 = .ok (some c) := by
  intro start all rest hops hmarked hsteady
  have hleaner : ∀ pre, pre <+: ops → Leaner (all pre).1 (rest pre).1 := by
    intro pre hpre
    exact leaner_run (fun op hop => hops op (hpre.subset hop)) (fun op hop => hmarked op (hpre.subset hop))
      fun mid hmid => hsteady mid (hmid.trans hpre)
  have hlast := hleaner ops (List.prefix_refl ops)
  refine ⟨?_, ?_, hlast.frame, ?_⟩
  · rintro pre op post rfl hop
    have hpre : pre <+: pre ++ (op, false) :: post := List.prefix_append _ _
    have hnext : pre ++ [(op, false)] <+: pre ++ (op, false) :: post := ⟨post, by simp⟩
    have hsettled : ∀ ns, Settled ns (all pre).1 ((all pre).1.step encode op).1 := by
      intro ns
      have hafter := hsteady _ hnext ns
      simp only [all, List.map_append, List.map_singleton, run_snoc] at hafter
      exact (hsteady pre hpre ns).between hafter
    have hstep := level_step encode (hleaner pre hpre) (hops (op, false) (by simp)) hsettled
    refine ⟨((all pre).1.step encode op).2, ?_, ?_⟩
    · have hanswer := answer_run encode start (pre.map Prod.fst) op (post.map Prod.fst)
      simpa [all] using hanswer
    · have hanswer := answer_run encode start (unmarked pre) op (unmarked post)
      rw [← hstep.2 hop]
      simpa [rest, unmarked] using hanswer
  · intro pre hpre
    rw [(hleaner pre hpre).frame]
    rfl
  · intro key
    rcases hlast.owed key with hsame | ⟨c, hc, hnone, hdue⟩
    · exact Or.inl hsame
    · refine Or.inr ⟨hnone, c, hc, ?_, hdue⟩
      have hlook := container?_look (rest ops).1 key
      generalize (rest ops).1.container? key = p at hlook hdue
      cases hlook with
      | found c' hr hl =>
        rw [hnone] at hl
        cases hl
      | begun c' hr hl hnew =>
        cases hdue
        exact hnew
      | _ => cases hdue

/-- the stocks are asked for too early, then read and torn down, and asked for again -/
def curious : List (Op Data Data × Bool) :=
  [(.checkPosition stocksKey 5, true), (.startReader "r" stocksKey 0 oneBatch, false), (.poll "r", false),
    (.readMany ordersKey 0 oneBatch, true), (.setVersion ⟨3, 10⟩, false), (.write stocksKey 0 (.added [1] [1]), false),
    (.poll "r", false), (.destroy stocksKey, false), (.oldest stocksKey, true)]

/-- the reader parks, is woken and reads the same without the questions, of which the first is refused and creates the stocks,
and the last leaves them empty -/
theorem queries_pure_curious :
    let start : Feed Data := (run .ok (init smallResolver true) [addOrder 0]).1
    let all := start.run .ok (curious.map Prod.fst)
    let rest := start.run .ok (unmarked curious)
    all.2[0]?.map Except.isOk = some false ∧ "r" ∈ (start.run .ok (unmarked (curious.take 6))).1.wokenJobs ∧
      (∃ answer, all.2[6]? = some answer ∧ rest.2[4]? = some answer) ∧
      ∃ c, all.1.store.live? stocksKey = some c ∧ rest.1.store.live? stocksKey = none ∧ New stocksKey c ∧
        (rest.1.container? stocksKey).2 = .ok (some c) := by
  have hpure := queries_pure .ok smallResolver true [addOrder 0] curious (by decide) (by decide) (by
    intro mid hmid ns
    have hmid := (List.mem_inits mid curious).2 hmid
    simp only [curious, List.inits, List.map_cons, List.map_nil, List.mem_cons, List.not_mem_nil, or_false] at hmid
    -- the settings are those of the operations so far
    constructor <;> rw [resolver_run] <;>
      rcases hmid with rfl | rfl | rfl | rfl | rfl | rfl | rfl | rfl | rfl | rfl <;> rfl)
  -- the same runs on both sides, written out
  dsimp only at hpure ⊢
  obtain ⟨hanswers, hwoken, -, hlive⟩ := hpure
  have hread := hanswers (curious.take 6) (.poll "r") (curious.drop 7) rfl rfl
  rw [show (curious.take 6).length = 6 from rfl, show (unmarked (curious.take 6)).length = 4 from rfl] at hread
  refine ⟨by decide +kernel, ?_, hread, ?_⟩
  · rw [hwoken (curious.take 6) (List.take_prefix 6 curious)]
    decide +kernel
  · rcases hlive stocksKey with hsame | ⟨hnone, c, hc, hnew, hdue⟩
    · exact absurd (congrArg Option.isSome hsame) (by decide +kernel)
    · exact ⟨c, hc, hnone, hnew, hdue⟩

end Feed

end Changefeed
