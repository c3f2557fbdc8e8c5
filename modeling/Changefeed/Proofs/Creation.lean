/-
Where the containers come from. A container comes to be only when an operation needs the journal of a key that has none,
and then only if the settings let the namespace have one (`Resolver.Admits`): with the share of the partition that they
give at that moment. What becomes of the settings later does not matter to it.

Results:
- `container?_founds`: a look either changes nothing or creates the container that the settings admit;
- `container?_admitted`, `provides_iff`: it does create it, so a journal can be had if it is there or admitted;
- `step_brings`: so does every operation, for the journal that it is addressed to, unless it goes behind the settings;
- `origin_of_new`, `same_of_old`: an operation creates a container, or leaves the settings of the one that is there;
- `containers_admitted`: for every container of every run, the operation that created it, and the settings then.
-/
import Changefeed.Proofs.Locality

namespace Changefeed

variable {ω β : Type}

/-- the operation creates no container behind the settings -/
def Op.gated : Op ω β → Bool
  | .provide .. => false
  | _ => true

/-- the operation needs no container -/
def Op.needsNone : Op ω β → Bool
  | .hasJournal _ => true
  | .journalConfig _ => true
  | .storageConfig _ => true
  | .waitKey _ => true
  | .destroy _ => true
  | _ => false

/-- there is no journal to be had -/
def JournalError.withholds : JournalError → Bool
  | .notConfigured _ => true
  | .serviceUnavailable _ => true
  | .invalidConfig _ => true
  | _ => false

/-- an operation, or the reader that it polls, is told that there is no journal to be had -/
def withheld : Except JournalError (Answer β) → Bool
  | .error e => e.withholds
  | .ok (.progress (.finished (.error e))) => e.withholds
  | _ => false

/-! ## The settings -/

/-- the version knows journals -/
theorem Version.not_older_iff (v : Version) :
    v.older minJournalVersion = false ↔ 3 < v.major.toNat ∨ v.major.toNat = 3 ∧ 9 ≤ v.minor.toNat := by
  rw [← Bool.not_eq_true, older_iff]
  simp only [minJournalVersion, UInt8.reduceToNat]
  omega

/-- the settings let a namespace have journals, and these are the settings of each of its partitions -/
structure Resolver.Admits (r : Resolver) (ns : Namespace) (config : JournalConfig) (storage : StorageConfig) : Prop where
  version : 3 < r.version.major.toNat ∨ r.version.major.toNat = 3 ∧ 9 ≤ r.version.minor.toNat
  resolved : r.registry ns.object = some config
  enabled : config.enabled = true
  partitions : 0 < r.partitions.toNat
  room : 1 ≤ config.capacity.toNat / r.partitions.toNat
  share : storage.capacity.toNat = config.capacity.toNat / r.partitions.toNat
  settings : storage = ⟨storage.capacity, config.ttlSeconds, 0, 0, .object⟩

theorem JournalConfig.split_ok {config : JournalConfig} {partitions : UInt32} {storage : StorageConfig}
    (h : config.split partitions = .ok storage) :
    partitions ≠ 0 ∧ config.capacity / partitions ≠ 0 ∧
      storage = ⟨config.capacity / partitions, config.ttlSeconds, 0, 0, .object⟩ := by
  unfold split at h
  split at h
  · cases h
  · next hpartitions =>
    simp only at h
    split at h
    · cases h
    · next hroom =>
      cases h
      exact ⟨hpartitions, hroom, rfl⟩

theorem Resolver.admits_of_split {r : Resolver} {ns : Namespace} {config : JournalConfig} {storage : StorageConfig}
    (henabled : r.enabledConfig? ns = some config) (hsplit : config.split r.partitions = .ok storage) :
    r.Admits ns config storage := by
  obtain ⟨hconfig, henabled⟩ := Option.filter_eq_some_iff.1 henabled
  unfold Resolver.config? at hconfig
  split at hconfig
  · cases hconfig
  · next hversion =>
    obtain ⟨hpartitions, hroom, rfl⟩ := JournalConfig.split_ok hsplit
    have hpos : ∀ {n : UInt32}, n ≠ 0 → 0 < n.toNat := by
      intro n hn
      exact Nat.pos_of_ne_zero fun h0 => hn (UInt32.toNat_inj.1 h0)
    have hdiv := UInt32.toNat_div config.capacity r.partitions
    refine ⟨(Version.not_older_iff _).1 (by simpa using hversion), hconfig, henabled, hpos hpartitions, ?_, hdiv, rfl⟩
    exact hdiv ▸ hpos hroom

/-- what the settings admit is what they give -/
theorem Resolver.Admits.given {r : Resolver} {ns : Namespace} {config : JournalConfig} {storage : StorageConfig}
    (h : r.Admits ns config storage) :
    r.enabledConfig? ns = some config ∧ config.split r.partitions = .ok storage := by
  have hversion : r.version.older minJournalVersion = false := (Version.not_older_iff _).2 h.version
  have hpos : ∀ {n : UInt32}, 0 < n.toNat → n ≠ 0 := by
    rintro n hn rfl
    exact absurd hn (by decide)
  have hdiv := UInt32.toNat_div config.capacity r.partitions
  have hroom : config.capacity / r.partitions ≠ 0 := hpos (hdiv.symm ▸ h.room)
  have hshare : storage.capacity = config.capacity / r.partitions := UInt32.toNat_inj.1 (h.share.trans hdiv.symm)
  constructor
  · refine Option.filter_eq_some_iff.2 ⟨?_, h.enabled⟩
    rw [config?, hversion, if_neg Bool.false_ne_true, h.resolved]
  · rw [JournalConfig.split, if_neg (hpos h.partitions)]
    simp only [if_neg hroom]
    rw [h.settings, hshare]

/-! ## The settings of a container -/

namespace Container

/-- a container can be created if it has room -/
theorem create_ok (key : JournalKey) {config : StorageConfig} (h : config.capacity ≠ 0) :
    ∃ c : Container EventRecord, create key config = .ok c :=
  ⟨_, if_neg h⟩

end Container

/-- a use leaves the settings as they are -/
theorem Feed.Used.config {c c' : Container EventRecord} {a : Option EventRecord} (h : Used c a c') :
    c'.config = c.config := by
  cases h with
  | seen => rfl
  | cleaned now => exact Container.config_cleanup c now
  | grown a now => rfl

/-! ## Nothing, or the container that was asked for -/

/-- no container was created -/
structure Store.Barren (s s' : Store EventRecord) : Prop where
  created : s'.created = s.created
  absent : ∀ key, s.live? key = none → s'.live? key = none

theorem Store.Barren.refl (s : Store EventRecord) : Barren s s := ⟨rfl, fun _ h => h⟩

theorem Store.barren_set (s : Store EventRecord) (key : JournalKey) (g : Generations (Container EventRecord))
    (h : s.live? key = none → g.opened = none) : Barren s { s with journals := s.journals.set key g } := by
  refine ⟨rfl, ?_⟩
  intro key' hnone
  by_cases hk : key' = key
  · subst hk
    rw [live?, journal_set]
    exact h hnone
  · rw [live?, journal_set_of_ne s hk]
    exact hnone

theorem Store.barren_discard (s : Store EventRecord) (key : JournalKey) : Barren s (s.discard key).1 := by
  unfold discard
  split
  · exact .refl s
  · obtain ⟨-, habsent⟩ := barren_set s key ((s.journal key).close id) fun _ => rfl
    exact ⟨rfl, habsent⟩

theorem Store.barren_modify (s : Store EventRecord) (handle : Handle)
    (act : Container EventRecord → Container EventRecord) : Barren s (s.modify handle act) := by
  refine barren_set s _ _ fun hnone => ?_
  unfold live? at hnone
  unfold Generations.modify
  split
  · simp only [hnone, Option.map_none]
  · exact hnone

theorem Store.barren_put {s : Store EventRecord} {key : JournalKey} {c c' : Container EventRecord}
    (hlive : s.live? key = some c) (hkey : c'.key = key) : Barren s (s.put c') := by
  subst hkey
  refine barren_set s _ _ fun hnone => ?_
  rw [hlive] at hnone
  cases hnone

namespace Feed

/-- one container was created: the one of a key that had none, with the settings that are admitted now -/
structure Founds (f : Feed β) (key : JournalKey) (store : Store EventRecord) : Prop where
  absent : f.store.live? key = none
  registered : f.registered = true
  admitted : ∃ c config, store.live? key = some c ∧ f.resolver.Admits key.ns config c.config
  created : store.created = f.store.created + 1
  others : ∀ key', key' ≠ key → f.store.live? key' = none → store.live? key' = none

/-- a look that creates a container creates it with settings that are admitted now -/
theorem created_of_container? {f f' : Feed β} {key : JournalKey} {c : Container EventRecord}
    (hn : f.store.live? key = none) (h : f.container? key = (f', .ok (some c))) :
    ∃ config, f.resolver.Admits key.ns config c.config ∧ Container.create key c.config = .ok c ∧
      f' = f.beginWith key c := by
  unfold container? at h
  rw [hn] at h
  split at h
  · cases h
  · cases henabled : f.resolver.enabledConfig? key.ns with
    | none =>
      rw [henabled] at h
      cases h
    | some config =>
      simp only [henabled] at h
      cases hsplit : config.split f.resolver.partitions with
      | error e =>
        rw [hsplit] at h
        cases h
      | ok storage =>
        simp only [hsplit, Store.provide, hn] at h
        cases hc : Container.create key storage with
        | error e =>
          rw [hc] at h
          cases h
        | ok d =>
          rw [hc] at h
          cases h
          rw [Container.config_create hc]
          exact ⟨config, Resolver.admits_of_split henabled hsplit, hc, rfl⟩

theorem admits_of_container? {f f' : Feed β} {key : JournalKey} {c : Container EventRecord}
    (hn : f.store.live? key = none) (h : f.container? key = (f', .ok (some c))) :
    ∃ config, f.resolver.Admits key.ns config c.config := by
  obtain ⟨config, hadmits, -, -⟩ := created_of_container? hn h
  exact ⟨config, hadmits⟩

/-- a look at a journal that is not there creates the container that the settings admit -/
theorem container?_admitted {f : Feed β} (hr : f.registered = true) {key : JournalKey}
    (hn : f.store.live? key = none) {config : JournalConfig} {storage : StorageConfig}
    (h : f.resolver.Admits key.ns config storage) :
    ∃ c, f.container? key = (f.beginWith key c, .ok (some c)) ∧ New key c ∧ c.config = storage := by
  obtain ⟨henabled, hsplit⟩ := h.given
  have hcapacity : storage.capacity ≠ 0 := by
    obtain ⟨-, hroom, hstorage⟩ := JournalConfig.split_ok hsplit
    rw [hstorage]
    exact hroom
  obtain ⟨c, hc⟩ := Container.create_ok key hcapacity
  refine ⟨c, ?_, new_of_create hc, Container.config_create hc⟩
  have hr : ¬ f.registered = false := by simp [hr]
  rw [container?, if_neg hr, hn]
  simp only [henabled, hsplit, Store.provide, hn, hc]
  rfl

/-- the settings admit a container of the namespace -/
def Admitted (f : Feed β) (ns : Namespace) : Prop := ∃ config storage, f.resolver.Admits ns config storage

/-- a journal can be had if it is there, or the settings admit it -/
theorem provides_iff {f : Feed β} {key : JournalKey} :
    f.provides key = true ↔ f.registered = true ∧ ((∃ c, f.store.live? key = some c) ∨ f.Admitted key.ns) := by
  constructor
  · intro h
    obtain ⟨f', c, hp⟩ := found_of_provides h
    have hlook := container?_look f key
    rw [hp] at hlook
    cases hlook with
    | found _ hr hc => exact ⟨hr, Or.inl ⟨c, hc⟩⟩
    | begun _ hr hn hc =>
      obtain ⟨config, hadmits⟩ := admits_of_container? hn hp
      exact ⟨hr, Or.inr ⟨config, c.config, hadmits⟩⟩
  · rintro ⟨hr, h⟩
    cases hl : f.store.live? key with
    | some c => exact provides_of_found (container?_live hr hl)
    | none =>
      rcases h with ⟨c, hc⟩ | ⟨config, storage, hadmits⟩
      · rw [hl] at hc
        cases hc
      · obtain ⟨c, hlook, -, -⟩ := container?_admitted hr hl hadmits
        exact provides_of_found hlook

/-- **A look either changes nothing or creates the container that the settings admit**, and gives it. -/
theorem container?_founds (f : Feed β) (key : JournalKey) :
    (f.container? key).1 = f ∨
      ∃ f' c, f.container? key = (f', .ok (some c)) ∧ c.key = key ∧ Founds f key f'.store := by
  have hlook := container?_look f key
  generalize hp : f.container? key = p at hlook
  cases hlook with
  | refused e => exact Or.inl rfl
  | absent => exact Or.inl rfl
  | found c => exact Or.inl rfl
  | begun c hr hn hc =>
    refine Or.inr ⟨_, c, rfl, hc.key, hn, hr, ?_, rfl, ?_⟩
    · obtain ⟨config, hadmits⟩ := admits_of_container? hn hp
      exact ⟨c, config, live?_beginWith f key c, hadmits⟩
    · intro key' hk hnone
      rw [Store.live?, journal_beginWith_of_ne f hk]
      exact hnone

/-- the new container can be used and put back in its place -/
theorem Founds.put {f f' : Feed β} {key : JournalKey} {c c' : Container EventRecord} (h : Founds f key f'.store)
    (hlive : f'.store.live? key = some c) (hkey : c'.key = key) (hconfig : c'.config = c.config) :
    Founds f key (f'.store.put c') := by
  obtain ⟨d, config, hd, hadmits⟩ := h.admitted
  rw [hlive] at hd
  cases hd
  refine ⟨h.absent, h.registered, ⟨c', config, ?_, hconfig ▸ hadmits⟩, h.created, ?_⟩
  · rw [Store.live?, Store.journal_put hkey]
  · intro key' hk hnone
    rw [Store.live?, Store.journal_put_of_ne (hkey ▸ hk)]
    exact h.others key' hk hnone

/-! ## Every operation -/

/-- what an operation brings: no container, or the one of the journal that it is addressed to, which it then has -/
inductive Brings (f : Feed β) (op : Op ω β) : Feed β × Except JournalError (Answer β) → Prop
  | nothing {f' : Feed β} {a : Except JournalError (Answer β)} (h : Store.Barren f.store f'.store) : Brings f op (f', a)
  | container {f' : Feed β} {a : Except JournalError (Answer β)} (key : JournalKey) (haddress : op.address? f = some key)
      (hf : Founds f key f'.store) (ha : withheld a = false) : Brings f op (f', a)

section Steps

variable {f : Feed β} {op : Op ω β} {key : JournalKey}

theorem brings_of_barren {p : Feed β × Except JournalError (Answer β)} (h : Store.Barren f.store p.1.store) :
    Brings f op p := .nothing (a := p.2) h

theorem brings_of_store {p : Feed β × Except JournalError (Answer β)} (h : p.1.store = f.store) : Brings f op p :=
  brings_of_barren (h ▸ .refl f.store)

theorem withholds_checkPosition {c : Container EventRecord} {s : Int} {e : JournalError}
    (h : c.checkPosition s = .error e) : e.withholds = false := by
  unfold Container.checkPosition at h
  split at h
  · cases h
    rfl
  · split at h
    · cases h
      rfl
    · cases h

/-- a question that withholds nothing brings the container that it is asked of -/
theorem brings_query {γ : Type} (haddress : op.address? f = some key)
    {ask : Container EventRecord → Except JournalError γ} (hask : ∀ c e, ask c = .error e → e.withholds = false)
    {give : γ → Answer β} (hgive : ∀ a, withheld (.ok (give a)) = false) :
    Brings f op (answer give (f.query key ask)) := by
  rcases container?_founds f key with hsame | ⟨f', c, hp, -, hf⟩
  · refine brings_of_store ?_
    rw [answer_fst, query_fst, hsame]
  · rw [query_found hp]
    cases ha : ask c with
    | error e => exact .container key haddress hf (hask c e ha)
    | ok a => exact .container key haddress hf (hgive a)

theorem brings_cleanup (hkeyed : f.store.Keyed) (haddress : op.address? f = some key) (now : ℕ) :
    Brings f op (answer (fun _ => .done) (f.cleanup key now)) := by
  rcases container?_founds f key with hsame | ⟨f', c, hp, hk, hf⟩
  · refine brings_of_barren ?_
    rw [answer_fst]
    rcases cleanup_cases f key now with h | ⟨f', c, hp, h⟩
    · rw [h, hsame]
      exact .refl f.store
    · obtain ⟨-, hlive, -⟩ := live_of_container? hp
      obtain rfl : f' = f := by rw [← hsame, hp]
      rw [h]
      exact Store.barren_put hlive ((Container.key_cleanup c now).trans (key_of_container? hkeyed hp))
  · obtain ⟨-, hlive, -⟩ := live_of_container? hp
    simp only [cleanup, container, hp]
    have hput := hf.put hlive ((Container.key_cleanup c now).trans hk) (Container.config_cleanup c now)
    exact .container key haddress hput rfl

theorem brings_write (encode : ω → Except WireError Data) (hkeyed : f.store.Keyed) (haddress : op.address? f = some key)
    (now : ℕ) (change : Change ω ω) : Brings f op (answer (fun _ => .done) (f.write encode key now change)) := by
  rcases container?_founds f key with hsame | ⟨f', c, hp, hk, hf⟩
  · refine brings_of_barren ?_
    rw [answer_fst]
    have hwritten := write_written encode f key now change
    generalize (f.write encode key now change).1 = f' at hwritten
    cases hwritten with
    | nothing =>
      rw [hsame]
      exact .refl f.store
    | @record f' c a hp =>
      obtain ⟨-, hlive, -⟩ := live_of_container? hp
      obtain rfl : f' = f := by rw [← hsame, hp]
      exact Store.barren_put hlive ((Container.key_append c a now).trans (key_of_container? hkeyed hp))
  · obtain ⟨-, hlive, -⟩ := live_of_container? hp
    simp only [write, hp]
    cases change.encode encode encode with
    | error e => exact .container key haddress hf rfl
    | ok a => exact .container key haddress (hf.put hlive ((Container.key_append c a now).trans hk) rfl) rfl

/-- what the turns of a reader bring: nothing, or the container of its journal, and then they are not told that there is
none -/
theorem store_of_outcome {past : JournalKey → List EventRecord} (h : f.Sound past) {id : String} {r : Reader β}
    (hr : f.jobs.get? id = some (.reader r)) {f₀ f₁ : Feed β} {w : Waiter} (he : Enrolled f r f₀ w) {s : Int}
    {b : Batch EventRecord β} {t : Turn β} (ho : Outcome f₀ w s b (f₁, t)) :
    f₁.store = f.store ∨ Founds f r.key f₁.store ∧ ∀ e, t = .finished (.error e) → e.withholds = false := by
  have hstore : f₀.store = f.store := by cases he <;> rfl
  cases ho with
  | dismissed => exact Or.inl hstore
  | denied => exact Or.inl hstore
  | served _ c _ hc hl hs =>
    rcases container?_founds f₀ w.key with hsame | ⟨f', c', hp, -, hf⟩
    · rw [hl] at hsame
      exact Or.inl ((congrArg Feed.store hsame).trans hstore)
    · rw [hl] at hp
      cases hp
      rw [he.key h hr] at hf
      have hfounds : Founds f r.key f₁.store := by
        cases he <;> exact ⟨hf.absent, hf.registered, hf.admitted, hf.created, hf.others⟩
      refine Or.inr ⟨hfounds, ?_⟩
      rintro e rfl
      cases hs with
      | refused _ he => exact withholds_checkPosition he

/-- a poll of a reader brings nothing, or the container of its journal -/
theorem brings_pollReader {past : JournalKey → List EventRecord} (h : f.Sound past) {id : String} {r : Reader β}
    (hr : f.jobs.get? id = some (.reader r)) (haddress : op.address? f = some r.key) {f' : Feed β} {p : Progress β}
    (hpolled : Polled f id r (f', p)) : Brings f op (f', .ok (.progress p)) := by
  cases hpolled with
  | asleep => exact brings_of_store rfl
  | ended f₀ f₁ w result he ho =>
    rcases store_of_outcome h hr he ho with hstore | ⟨hfounds, hheld⟩
    · exact brings_of_store hstore
    · refine .container r.key haddress hfounds ?_
      cases result with
      | ok b => rfl
      | error e => exact hheld e rfl
  | parked f₀ f₁ w watch position b he ho =>
    rcases store_of_outcome h hr he ho with hstore | ⟨hfounds, -⟩
    · exact brings_of_store hstore
    · exact .container r.key haddress hfounds rfl

theorem brings_poll {past : JournalKey → List EventRecord} (encode : ω → Except WireError Data) (h : f.Sound past)
    (id : String) : Brings f (.poll id : Op ω β) (f.step encode (.poll id)) := by
  cases hjob : f.jobs.get? id with
  | none =>
    simp only [step, poll, hjob]
    exact brings_of_store rfl
  | some job =>
    cases job with
    | watch owner watch polled =>
      refine brings_of_store ?_
      rw [step_poll]
      simp only [poll, hjob]
      split <;> rfl
    | reader r =>
      obtain ⟨f', p, heq, hpolled⟩ := poll_polled h.history.ringed hjob
      simp only [step, heq]
      exact brings_pollReader h hjob (by rw [Op.address?, hjob]; rfl) hpolled

theorem barren_onHandle (f : Feed β) (handle : Handle)
    (act : Container EventRecord → Container EventRecord × Except JournalError (Answer β)) :
    Store.Barren f.store (f.onHandle handle act).1.store := by
  unfold onHandle
  split
  · exact .refl f.store
  · exact Store.barren_modify f.store handle _

/-- **A container comes to be only when an operation on its journal needs it and the settings admit it**, and one at a
time. -/
theorem step_brings {past : JournalKey → List EventRecord} (encode : ω → Except WireError Data) (h : f.Sound past)
    (hop : op.gated = true) : Brings f op (f.step encode op) := by
  cases op with
  | write k now change => exact brings_write encode h.keyed rfl now change
  | newest k => exact brings_query rfl (fun _ _ hask => by cases hask) fun _ => rfl
  | oldest k => exact brings_query rfl (fun _ _ hask => by cases hask) fun _ => rfl
  | subscribe k =>
    rw [step, subscribe_eq]
    exact brings_query rfl (fun c e h => by cases h) fun _ => rfl
  | checkPosition k s => exact brings_query rfl (fun _ _ => withholds_checkPosition) fun _ => rfl
  | shouldWait k s => exact brings_query rfl (fun _ _ hask => by cases hask) fun _ => rfl
  | readMany k s b =>
    exact brings_query rfl (fun _ _ hask => withholds_checkPosition (Container.readMany_error_iff.1 hask)) fun _ => rfl
  | cleanup k now => exact brings_cleanup h.keyed rfl now
  | destroy k =>
    refine brings_of_barren ?_
    simp only [step, destroy]
    split
    · exact .refl f.store
    · exact Store.barren_discard f.store k
  | startReader id k s b => exact brings_of_store (congrArg store (drop_frame f id) :)
  | poll id => exact brings_poll encode h id
  | drop id => exact brings_of_store (congrArg store (drop_frame f id) :)
  | addWaiter name k => exact brings_of_store (congrArg store (dropWaiter_frame f name) :)
  | startWatch id name =>
    refine brings_of_store ?_
    rw [step_startWatch, startWatch_frame]
  | dropWaiter name => exact brings_of_store (congrArg store (dropWaiter_frame f name) :)
  | waiterCancelled name =>
    refine brings_of_store ?_
    simp only [step]
    split <;> rfl
  | wakeContainer handle =>
    refine brings_of_store ?_
    simp only [step]
    split <;> rfl
  | storageConfig config =>
    refine brings_of_store ?_
    simp only [step, answer_fst]
  | provide k config => cases hop
  | discard k => exact brings_of_barren (Store.barren_discard f.store k)
  | inspect handle => exact brings_of_barren (barren_onHandle f handle _)
  | append handle record now => exact brings_of_barren (barren_onHandle f handle _)
  | readOne handle s => exact brings_of_barren (barren_onHandle f handle _)
  | checkIn handle s => exact brings_of_barren (barren_onHandle f handle _)
  | shouldWaitIn handle s => exact brings_of_barren (barren_onHandle f handle _)
  | cleanupIn handle now => exact brings_of_barren (barren_onHandle f handle _)
  | _ => exact brings_of_store rfl

/-! ## Operations without a container -/

/-- the operation gets no container: it needs none, it is told that there is none, or it is a write that does nothing -/
def GetsNone (encode : ω → Except WireError Data) (f : Feed β) (op : Op ω β) : Prop :=
  op.needsNone = true ∨ withheld (f.step encode op).2 = true ∨
    ∃ key now change, op = .write key now change ∧ (f.step encode op).2 = .ok .done ∧ op.appended? encode f key = none

theorem barren_of_needsNone (encode : ω → Except WireError Data) (f : Feed β) {op : Op ω β} (hop : op.needsNone = true) :
    Store.Barren f.store (f.step encode op).1.store := by
  cases op with
  | destroy k =>
    simp only [step, destroy]
    split
    · exact .refl f.store
    · exact Store.barren_discard f.store k
  | storageConfig config =>
    simp only [step, answer_fst]
    exact .refl f.store
  | hasJournal ns => exact .refl f.store
  | journalConfig ns => exact .refl f.store
  | waitKey k => exact .refl f.store
  | _ => cases hop

theorem barren_of_withheld {past : JournalKey → List EventRecord} (encode : ω → Except WireError Data) (h : f.Sound past)
    (hop : withheld (f.step encode op).2 = true) : Store.Barren f.store (f.step encode op).1.store := by
  cases hgated : op.gated with
  | true =>
    have hbrings := step_brings encode h hgated
    generalize f.step encode op = p at hop hbrings
    cases hbrings with
    | nothing hbarren => exact hbarren
    | container _ _ _ ha =>
      rw [ha] at hop
      cases hop
  | false =>
    cases op with
    | provide k config =>
      simp only [step] at hop ⊢
      cases hp : f.store.provide k config with
      | error e => exact .refl f.store
      | ok p =>
        rw [hp] at hop
        simp only [found] at hop
        split at hop <;> cases hop
    | _ => cases hgated

/-- a write that succeeds without appending found no journal -/
theorem barren_of_write (encode : ω → Except WireError Data) {k : JournalKey} {now : ℕ} {change : Change ω ω}
    (hdone : (f.step encode (.write k now change)).2 = .ok .done)
    (hnone : (Op.write (β := β) k now change).appended? encode f k = none) :
    Store.Barren f.store (f.step encode (.write k now change)).1.store := by
  have hlook := container?_look f k
  generalize hp : f.container? k = p at hlook
  have hlost : ∀ f' c, f.container? k ≠ (f', .ok (some c)) := by
    intro f' c hfound
    simp only [step, write, hfound] at hdone
    simp only [Op.appended?, provides_of_found hfound, and_self, if_true] at hnone
    cases hencode : change.encode encode encode with
    | error e =>
      rw [hencode] at hdone
      cases hdone
    | ok a =>
      rw [hencode] at hnone
      cases hnone
  cases hlook with
  | refused e =>
    simp only [step, write, hp]
    exact .refl f.store
  | absent =>
    simp only [step, write, hp]
    exact .refl f.store
  | found c => exact absurd hp (hlost _ c)
  | begun c => exact absurd hp (hlost _ c)

/-- **An operation that gets no container creates none.** -/
theorem barren_of_getsNone {past : JournalKey → List EventRecord} (encode : ω → Except WireError Data) (h : f.Sound past)
    (hop : GetsNone encode f op) : Store.Barren f.store (f.step encode op).1.store := by
  rcases hop with hop | hop | ⟨k, now, change, rfl, hdone, hnone⟩
  · exact barren_of_needsNone encode f hop
  · exact barren_of_withheld encode h hop
  · exact barren_of_write encode hdone hnone

end Steps

/-! ## Runs -/

/-- the operation is addressed to a key without a container, and these settings are admitted for it then -/
structure Origin (f : Feed β) (op : Op ω β) (key : JournalKey) (storage : StorageConfig) : Prop where
  absent : f.store.live? key = none
  address : op.address? f = some key
  registered : f.registered = true
  admitted : ∃ config, f.resolver.Admits key.ns config storage

/-- throughout the second part of a run, a key has the container with this handle and these settings -/
def Lasts (encode : ω → Except WireError Data) (start : Feed β) (pre post : List (Op ω β)) (key : JournalKey)
    (handle : Option Handle) (storage : StorageConfig) : Prop :=
  ∀ mid, mid <+: post → (start.run encode (pre ++ mid)).1.store.handle? key = handle ∧
    ((start.run encode (pre ++ mid)).1.store.live? key).map Container.config = some storage

section Origins

variable {encode : ω → Except WireError Data} {f : Feed β} {op : Op ω β} {key : JournalKey} {c : Container EventRecord}

/-- a container that is there after an operation but was not before -/
theorem origin_of_new {past : JournalKey → List EventRecord} (h : f.Sound past) (hop : op.gated = true)
    (hn : f.store.live? key = none) (hc : (f.step encode op).1.store.live? key = some c) : Origin f op key c.config := by
  have hbrings := step_brings encode h hop
  generalize f.step encode op = p at hbrings hc
  cases hbrings with
  | nothing hbarren =>
    rw [hbarren.absent key hn] at hc
    cases hc
  | container k haddress hf _ =>
    by_cases hk : key = k
    · subst hk
      obtain ⟨c', config, hc', hadmits⟩ := hf.admitted
      rw [hc] at hc'
      cases hc'
      exact ⟨hn, haddress, hf.registered, config, hadmits⟩
    · rw [hf.others key hk hn] at hc
      cases hc

theorem live?_of_tearsDown (hkeyed : f.store.Keyed) (h : op.tearsDown f key = true) :
    (f.step encode op).1.store.live? key = none := by
  have hfate := step_fate encode hkeyed op key
  rw [h] at hfate
  unfold Store.live?
  generalize op.appended? encode f key = a at hfate
  generalize (f.step encode op).1.store.journal key = g at hfate ⊢
  cases hfate with
  | closed => rfl

/-- a container that is there before and after an operation is the same one, with the same settings -/
theorem same_of_old {past : JournalKey → List EventRecord} (h : f.Sound past) {d : Container EventRecord}
    (hd : f.store.live? key = some d) (hc : (f.step encode op).1.store.live? key = some c) :
    c.config = d.config ∧ (f.step encode op).1.store.handle? key = f.store.handle? key := by
  have htorn : op.tearsDown f key = false := by
    by_contra htorn
    rw [live?_of_tearsDown h.keyed (by simpa using htorn)] at hc
    cases hc
  obtain ⟨c', hc', hused, hhandle⟩ := h.stays htorn hd
  rw [hc] at hc'
  cases hc'
  exact ⟨hused.config, hhandle⟩

theorem Lasts.snoc {pre post : List (Op ω β)} {handle : Option Handle} {storage : StorageConfig}
    (h : Lasts encode f pre post key handle storage) {ops : List (Op ω β)} (hops : pre ++ (post ++ [op]) = ops)
    (hhandle : (f.run encode ops).1.store.handle? key = handle)
    (hlive : ((f.run encode ops).1.store.live? key).map Container.config = some storage) :
    Lasts encode f pre (post ++ [op]) key handle storage := by
  intro mid hmid
  rcases List.prefix_concat_iff.1 hmid with rfl | hmid
  · rw [hops]
    exact ⟨hhandle, hlive⟩
  · exact h mid hmid

/-- **Every container of a run came from an operation of the run on its journal**, and has been there ever since with
the settings that were admitted then. -/
theorem origin_run (resolver : Resolver) (registered : Bool) {ops : List (Op ω β)} (hops : ∀ op ∈ ops, op.gated = true) :
    let start : Feed β := init resolver registered
    let f := (start.run encode ops).1
    f.store.live? key = some c → ∃ pre op post, ops = pre ++ op :: post ∧
      Origin (start.run encode pre).1 op key c.config ∧
      Lasts encode start (pre ++ [op]) post key (f.store.handle? key) c.config := by
  intro start
  induction ops using List.reverseRecOn generalizing c with
  | nil =>
    intro f hc
    cases hc
  | append_singleton ops op ih =>
    intro f hc
    have hlive : (f.store.live? key).map Container.config = some c.config := congrArg (Option.map Container.config) hc
    have hsound : (start.run encode ops).1.Sound _ := sound_run encode (sound_init resolver registered) ops
    have hstep : f = ((start.run encode ops).1.step encode op).1 := run_snoc encode start ops op
    rw [hstep] at hc
    -- the container is new, or it was there before the last operation
    cases hold : (start.run encode ops).1.store.live? key with
    | none =>
      refine ⟨ops, op, [], rfl, origin_of_new hsound (hops op (by simp)) hold hc, ?_⟩
      intro mid hmid
      rw [List.prefix_nil.1 hmid, List.append_nil]
      exact ⟨rfl, hlive⟩
    | some d =>
      obtain ⟨hconfig, hhandle⟩ := same_of_old hsound hold hc
      obtain ⟨pre, op', post, hsplit, horigin, hlasts⟩ := ih (fun op' hop' => hops op' (by simp [hop'])) hold
      have hall : pre ++ [op'] ++ (post ++ [op]) = ops ++ [op] := by rw [hsplit]; simp
      rw [← hconfig] at horigin hlasts
      rw [← hhandle, ← hstep] at hlasts
      exact ⟨pre, op', post ++ [op], by rw [hsplit]; simp, horigin, hlasts.snoc hall rfl hlive⟩

end Origins

/-- **The creation gate.** After any run that creates no containers behind the settings, whatever became of the settings,
the version, the partitions and the store service in between:
- a partition lists its live containers, at most one for a key;
- the container of a key came from an operation addressed to the key, at which the settings admitted it, and has had the
  settings of that moment ever since;
- an operation that gets no container creates none. -/
theorem containers_admitted (encode : ω → Except WireError Data) (resolver : Resolver) (registered : Bool)
    (ops : List (Op ω β)) (hops : ∀ op ∈ ops, op.gated = true) :
    let start : Feed β := init resolver registered
    let f := (start.run encode ops).1
    (∀ part, ((f.store.inPartition part).map Container.key).Nodup ∧
      ∀ c, c ∈ f.store.inPartition part ↔ c.key.part = part ∧ f.store.live? c.key = some c) ∧
    (∀ key c, f.store.live? key = some c → c.key = key ∧ ∃ pre op post, ops = pre ++ op :: post ∧
      Origin (start.run encode pre).1 op key c.config ∧
      Lasts encode start (pre ++ [op]) post key (f.store.handle? key) c.config) ∧
    ∀ op : Op ω β, GetsNone encode f op → Store.Barren f.store (f.step encode op).1.store := by
  intro start f
  have h : f.Sound _ := sound_run encode (sound_init resolver registered) ops
  refine ⟨?_, ?_, ?_⟩
  · intro part
    exact ⟨Store.nodup_inPartition h.keyed part, fun c => Store.mem_inPartition h.keyed⟩
  · intro key c hc
    exact ⟨h.keyed.live hc, origin_run resolver registered hops hc⟩
  · intro op hop
    exact barren_of_getsNone encode h hop

/-- an upgrade brings the journals, for nine records in two partitions; then all settings are taken away again -/
def upgrade : List (Op Data Data) :=
  [addOrder 0, .setVersion ⟨3, 9⟩, .newest ordersKey, .setPartitions 0, .setRegistry fun _ => none, .setVersion ⟨3, 8⟩,
    addOrder 1, .destroy stocksKey, .newest stocksKey]

/-- the settings of the next lemma: too old a version -/
def oldResolver : Resolver := ⟨fun _ => some (.ofCapacity 9), ⟨3, 8⟩, 2⟩

theorem containers_admitted_upgrade :
    (∀ op ∈ upgrade, op.gated = true) ∧
      (∃ c, (run .ok (init oldResolver true : Feed Data) upgrade).1.store.live? ordersKey = some c ∧ c.tail = 0 ∧
        c.config = ⟨4, 0, 0, 0, .object⟩ ∧ ∃ pre op post, upgrade = pre ++ op :: post ∧
          Origin (run .ok (init oldResolver true : Feed Data) pre).1 op ordersKey c.config ∧
          Lasts .ok (init oldResolver true) (pre ++ [op]) post ordersKey
            ((run .ok (init oldResolver true : Feed Data) upgrade).1.store.handle? ordersKey) c.config) ∧
      GetsNone .ok (run .ok (init oldResolver true : Feed Data) upgrade).1 (.newest stocksKey : Op Data Data) ∧
      Store.Barren (run .ok (init oldResolver true : Feed Data) upgrade).1.store
        ((run .ok (init oldResolver true : Feed Data) upgrade).1.step .ok (.newest stocksKey : Op Data Data)).1.store := by
  have hops : ∀ op ∈ upgrade, op.gated = true := by decide
  have hview : ((run .ok (init oldResolver true : Feed Data) upgrade).1.store.live? ordersKey).map
      (fun c => (c.tail, c.config)) = some (0, ⟨4, 0, 0, 0, .object⟩) := by decide +kernel
  have hnone : GetsNone .ok (run .ok (init oldResolver true : Feed Data) upgrade).1 (.newest stocksKey : Op Data Data) :=
    Or.inr (Or.inl (by decide +kernel))
  obtain ⟨c, hc, hboth⟩ := Option.map_eq_some_iff.1 hview
  obtain ⟨-, horigins, hbarren⟩ := containers_admitted .ok oldResolver true upgrade hops
  obtain ⟨-, horigin⟩ := horigins ordersKey c hc
  exact ⟨hops, ⟨c, hc, congrArg Prod.fst hboth, congrArg Prod.snd hboth, horigin⟩, hnone, hbarren _ hnone⟩

end Feed

end Changefeed
