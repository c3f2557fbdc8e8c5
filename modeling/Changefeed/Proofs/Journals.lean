/-
Looking for the journal of a key. Nearly every operation on a key begins so: a container that is live is found, one that
is missing is created if the key may have a journal. `Look` lists what can come of it.

Results:
- `container?_look`: there are no other cases;
- `container?_again`: looking twice is looking once;
- `Store.provide_ok`: what is provided is there, or is new;
- `Store.nodup_inPartition`, `Store.mem_inPartition`: a partition lists its live containers, each one once;
- `container?_frame`, `query_frame`, `cleanup_frame`, `onHandle_frame`: what is looked for, asked and done changes the store
  alone;
- `query_fst`, `subscribe_eq`: a question to a journal leaves what the look leaves.
-/
import Mathlib.Tactic
import Changefeed.Feed.Run
import Changefeed.Proofs.Window

namespace Changefeed

/-- the entries that are counted are counted once for each key -/
theorem Table.count_eq_card {κ α : Type} [DecidableEq κ] (t : Table κ α) (p : α → Bool) :
    ∃ keys : Finset κ, (∀ k, k ∈ keys ↔ (t.get? k).any p = true) ∧ t.count p = keys.card := by
  let counted := t.entries.filter fun e => p e.2
  have hnodup : (counted.map Prod.fst).Nodup := t.nodup.sublist (List.filter_sublist.map _)
  refine ⟨(counted.map Prod.fst).toFinset, fun k => ?_, ?_⟩
  · rw [List.mem_toFinset, List.mem_map]
    constructor
    · rintro ⟨⟨k, a⟩, hmem, rfl⟩
      obtain ⟨hentry, hp⟩ := List.mem_filter.1 hmem
      rw [(mem_entries_iff t k a).1 hentry]
      exact hp
    · intro hany
      obtain ⟨a, hget, hp⟩ := Option.any_eq_true _ _ |>.1 hany
      exact ⟨(k, a), List.mem_filter.2 ⟨(mem_entries_iff t k a).2 hget, hp⟩, rfl⟩
  · rw [List.toFinset_card_of_nodup hnodup, List.length_map, count, List.countP_eq_length_filter]

/-- a name that nobody bears is closed already -/
theorem Generations.close_of_none {α : Type} {g : Generations α} (h : g.opened = none) (act : α → α) :
    g.close act = g := by
  obtain ⟨closed, opened⟩ := g
  cases h
  simp [close]

/-- a name that nobody bears is given to somebody -/
theorem Generations.push_of_none {α : Type} {g : Generations α} (h : g.opened = none) (a : α) :
    g.push a = { g with opened := some a } := by
  simp [push, h]

/-- a change of one bearer leaves them all there -/
theorem Generations.length_modify {α : Type} (g : Generations α) (n : ℕ) (act : α → α) :
    (g.modify n act).closed.length = g.closed.length := by
  unfold modify
  split
  · rfl
  · exact List.length_modify _ _ _

theorem Generations.opened_modify_of_ne {α : Type} (g : Generations α) {n : ℕ} (h : n ≠ g.closed.length) (act : α → α) :
    (g.modify n act).opened = g.opened := by
  rw [modify, if_neg h]

theorem Generations.openId?_modify {α : Type} (g : Generations α) (n : ℕ) (act : α → α) :
    (g.modify n act).openId? = g.openId? := by
  rw [openId?, openId?, length_modify]
  by_cases h : n = g.closed.length
  · rw [modify, if_pos h]
    cases g.opened <;> rfl
  · rw [opened_modify_of_ne g h]

/-- another open bearer leaves the closed ones as they are -/
theorem Generations.get?_reopen {α : Type} (g : Generations α) (a : α) (n : ℕ) :
    ({ g with opened := some a } : Generations α).get? n = if n = g.closed.length then some a else g.get? n := by
  unfold get?
  split <;> rfl

namespace Store

variable {α : Type}

theorem journal_set_of_ne (s : Store α) {key key' : JournalKey} (h : key' ≠ key) (g : Generations (Container α)) :
    ({ s with journals := s.journals.set key g } : Store α).journal key' = s.journal key' := by
  simp only [journal, Table.get?_set_of_ne _ h]

theorem journal_put {s : Store α} {key : JournalKey} {c : Container α} (hc : c.key = key) :
    (s.put c).journal key = { s.journal key with opened := some c } := by
  subst hc
  exact journal_set _ _ _

theorem journal_put_of_ne {s : Store α} {key : JournalKey} {c : Container α} (hc : key ≠ c.key) :
    (s.put c).journal key = s.journal key :=
  journal_set_of_ne _ hc _

theorem journal_discard (s : Store α) (key : JournalKey) : (s.discard key).1.journal key = (s.journal key).close id := by
  unfold discard
  split
  · next hnone => exact (Generations.close_of_none hnone id).symm
  · exact journal_set _ _ _

theorem journal_discard_of_ne (s : Store α) {key key' : JournalKey} (h : key' ≠ key) :
    (s.discard key).1.journal key' = s.journal key' := by
  unfold discard
  split
  · rfl
  · exact journal_set_of_ne _ h _

/-- the handle of a key is that of its live container -/
theorem handle?_eq_some_iff {s : Store α} {key : JournalKey} {h : Handle} :
    s.handle? key = some h ↔
      h.key = key ∧ (s.live? key).isSome ∧ h.generation = (s.journal key).closed.length := by
  obtain ⟨k, n⟩ := h
  simp only [handle?, Generations.openId?, live?]
  cases (s.journal key).opened with
  | none => simp
  | some c => simp [eq_comm]

/-- the container with the number that the key has come to is the live one -/
theorem get?_eq_live? {s : Store α} {h : Handle} (hn : h.generation = (s.journal h.key).closed.length) :
    s.get? h = s.live? h.key := by
  rw [get?, Generations.get?, if_pos hn, live?]

theorem handle?_of_get? {s : Store α} {h : Handle} {c : Container α} (hget : s.get? h = some c)
    (hn : h.generation = (s.journal h.key).closed.length) : s.handle? h.key = some h := by
  refine handle?_eq_some_iff.2 ⟨rfl, ?_, hn⟩
  rw [← get?_eq_live? hn, hget]
  rfl

/-- the store with a new container under a key -/
def opening (s : Store α) (key : JournalKey) (c : Container α) : Store α :=
  { s with journals := s.journals.set key ((s.journal key).push c), created := s.created + 1 }

theorem journal_opening (s : Store α) (key : JournalKey) (c : Container α) :
    (s.opening key c).journal key = (s.journal key).push c := journal_set s key _

theorem journal_opening_of_ne (s : Store α) {key key' : JournalKey} (h : key' ≠ key) (c : Container α) :
    (s.opening key c).journal key' = s.journal key' := journal_set_of_ne s h _

/-- the container that is provided is there, or is a new one -/
theorem provide_ok {s s' : Store α} {key : JournalKey} {config : StorageConfig} {c : Container α}
    (h : s.provide key config = .ok (s', c)) :
    (s.live? key = some c ∧ s' = s) ∨
      (s.live? key = none ∧ Container.create key config = .ok c ∧ s' = s.opening key c) := by
  unfold provide at h
  cases hl : s.live? key with
  | some d =>
    rw [hl] at h
    cases h
    exact Or.inl ⟨rfl, rfl⟩
  | none =>
    rw [hl] at h
    cases hc : Container.create key config with
    | error e =>
      rw [hc] at h
      cases h
    | ok d =>
      rw [hc] at h
      cases h
      exact Or.inr ⟨rfl, rfl, rfl⟩

/-- every container of a key bears the key -/
def Keyed (s : Store α) : Prop := ∀ key n c, (s.journal key).get? n = some c → c.key = key

theorem keyed_empty : (empty : Store α).Keyed := by
  intro key n c h
  simp [empty, journal, Generations.empty, Generations.get?] at h

theorem Keyed.live {s : Store α} (h : s.Keyed) {key : JournalKey} {c : Container α} (hc : s.live? key = some c) :
    c.key = key :=
  h key (s.journal key).closed.length c (by rw [Generations.get?, if_pos rfl]; exact hc)

/-! ## Looking things up after a change -/

section Lookups

variable {s : Store α} {key : JournalKey} {c : Container α}

theorem handle?_of_live (h : s.live? key = some c) : s.handle? key = some ⟨key, (s.journal key).closed.length⟩ :=
  handle?_eq_some_iff.2 ⟨rfl, by rw [h]; rfl, rfl⟩

theorem handle?_of_vacant (h : s.live? key = none) : s.handle? key = none := by
  rw [live?] at h
  rw [handle?, Generations.openId?, h]
  rfl

theorem get?_of_live (h : s.live? key = some c) : s.get? ⟨key, (s.journal key).closed.length⟩ = some c :=
  (get?_eq_live? rfl).trans h

/-- a new container has the number that the key has come to -/
theorem handle?_opening (h : s.live? key = none) (key' : JournalKey) :
    (s.opening key c).handle? key' =
      if key' = key then some ⟨key, (s.journal key).closed.length⟩ else s.handle? key' := by
  by_cases hk : key' = key
  · subst hk
    rw [if_pos rfl, handle?, journal_opening, Generations.push_of_none h]
    rfl
  · rw [if_neg hk, handle?, handle?, journal_opening_of_ne s hk]

theorem get?_opening (h : s.live? key = none) (id : Handle) :
    (s.opening key c).get? id = if id = ⟨key, (s.journal key).closed.length⟩ then some c else s.get? id := by
  obtain ⟨key', n⟩ := id
  by_cases hk : key' = key
  · subst hk
    rw [get?, journal_opening, Generations.push_of_none h, Generations.get?_reopen]
    simp [get?]
  · rw [if_neg (by rintro ⟨⟩; exact hk rfl), get?, get?, journal_opening_of_ne s hk]

theorem handle?_discard (s : Store α) (key key' : JournalKey) :
    (s.discard key).1.handle? key' = if key' = key then none else s.handle? key' := by
  by_cases hk : key' = key
  · subst hk
    rw [if_pos rfl, handle?_of_vacant (live?_discard s key')]
  · rw [if_neg hk, handle?, handle?, journal_discard_of_ne s hk]

/-- what is destroyed can still be had by its identity -/
theorem get?_discard (s : Store α) (key : JournalKey) (id : Handle) : (s.discard key).1.get? id = s.get? id := by
  by_cases hk : id.key = key
  · subst hk
    rw [get?, journal_discard, Generations.get?_close, get?, Generations.get?]
    split <;> simp
  · rw [get?, get?, journal_discard_of_ne s hk]

theorem journal_modify_self (s : Store α) (id : Handle) (f : Container α → Container α) :
    (s.modify id f).journal id.key = (s.journal id.key).modify id.generation f := journal_set _ _ _

theorem journal_modify_of_ne (s : Store α) (id : Handle) (h : key ≠ id.key) (f : Container α → Container α) :
    (s.modify id f).journal key = s.journal key := journal_set_of_ne _ h _

theorem handle?_modify (s : Store α) (id : Handle) (f : Container α → Container α) (key : JournalKey) :
    (s.modify id f).handle? key = s.handle? key := by
  by_cases hk : key = id.key
  · rw [hk, handle?, handle?, journal_modify_self, Generations.openId?_modify]
  · rw [handle?, handle?, journal_modify_of_ne s id hk]

theorem get?_modify (s : Store α) (id id' : Handle) (f : Container α → Container α) :
    (s.modify id f).get? id' = if id' = id then (s.get? id).map f else s.get? id' := by
  obtain ⟨key, n⟩ := id
  obtain ⟨key', n'⟩ := id'
  by_cases hk : key' = key
  · subst hk
    rw [get?, journal_modify_self s ⟨key', n⟩, Generations.get?_modify]
    simp [get?]
  · rw [if_neg (by rintro ⟨⟩; exact hk rfl), get?, get?, journal_modify_of_ne s ⟨key, n⟩ hk]

end Lookups

/-! ## The entries of a store -/

/-- the live container of a key is the open bearer of its entry -/
theorem live?_eq_some_iff {s : Store α} {key : JournalKey} {c : Container α} :
    s.live? key = some c ↔ ∃ g, (key, g) ∈ s.journals.entries ∧ g.opened = some c := by
  simp only [live?, journal, Table.mem_entries_iff]
  cases s.journals.get? key with
  | none => simp [Generations.empty]
  | some g => simp

theorem keys_of_entries {entries : List (JournalKey × Generations (Container α))}
    (h : ∀ e ∈ entries, ∀ c, e.2.opened = some c → c.key = e.1) (part : ℕ) :
    ((entries.filterMap fun e => if e.1.part = part then e.2.opened else none).map Container.key).Sublist
      (entries.map Prod.fst) := by
  induction entries with
  | nil => exact List.Sublist.slnil
  | cons e entries ih =>
    have hrest := ih fun e' he' => h e' (List.mem_cons_of_mem e he')
    have hkey := h e List.mem_cons_self
    rw [List.map_cons, List.filterMap_cons]
    split
    · exact hrest.cons e.1
    · next c hc =>
      split at hc
      · rw [List.map_cons, hkey c hc]
        exact hrest.cons_cons e.1
      · cases hc

/-- a partition lists every key at most once -/
theorem nodup_inPartition {s : Store α} (h : s.Keyed) (part : ℕ) : ((s.inPartition part).map Container.key).Nodup := by
  have hkeys : ∀ e ∈ s.journals.entries, ∀ c, e.2.opened = some c → c.key = e.1 := fun e he c hc =>
    h.live (live?_eq_some_iff.2 ⟨e.2, he, hc⟩)
  have hnodup := s.journals.nodup.sublist (keys_of_entries hkeys part)
  exact ((List.mergeSort_perm _ _).map Container.key).nodup_iff.2 hnodup

/-- a partition lists the live containers of its keys -/
theorem mem_inPartition {s : Store α} (h : s.Keyed) {part : ℕ} {c : Container α} :
    c ∈ s.inPartition part ↔ c.key.part = part ∧ s.live? c.key = some c := by
  rw [inPartition, (List.mergeSort_perm _ _).mem_iff, List.mem_filterMap]
  constructor
  · rintro ⟨⟨key, g⟩, he, hc⟩
    split at hc
    · next hpart =>
      have hlive : s.live? key = some c := live?_eq_some_iff.2 ⟨g, he, hc⟩
      have hkey := h.live hlive
      exact ⟨hkey ▸ hpart, hkey ▸ hlive⟩
    · cases hc
  · rintro ⟨hpart, hlive⟩
    obtain ⟨g, he, hc⟩ := live?_eq_some_iff.1 hlive
    exact ⟨(c.key, g), he, by rw [if_pos hpart, hc]⟩

end Store

namespace Feed

variable {β ω : Type}

/-! ## Looking for a journal -/

/-- the feed with a new container under a key -/
def beginWith (f : Feed β) (key : JournalKey) (c : Container EventRecord) : Feed β :=
  { f with store := { f.store with
      journals := f.store.journals.set key ((f.store.journal key).push c)
      created := f.store.created + 1 } }

/-- a container that was just created under a key -/
structure New (key : JournalKey) (c : Container EventRecord) : Prop where
  key : c.key = key
  records : c.Records []

theorem new_of_create {key : JournalKey} {config : StorageConfig} {c : Container EventRecord}
    (h : Container.create key config = .ok c) : New key c :=
  ⟨Container.key_create h, Container.records_create h⟩

/-- what looking for a journal can give: a refusal, nothing, the live container, or a new one -/
inductive Look (f : Feed β) (key : JournalKey) : Feed β × Except JournalError (Option (Container EventRecord)) → Prop
  | refused (e : JournalError) : Look f key (f, .error e)
  | absent : Look f key (f, .ok none)
  | found (c : Container EventRecord) (hr : f.registered = true) (hc : f.store.live? key = some c) :
      Look f key (f, .ok (some c))
  | begun (c : Container EventRecord) (hr : f.registered = true) (hl : f.store.live? key = none) (hc : New key c) :
      Look f key (f.beginWith key c, .ok (some c))

theorem container?_look (f : Feed β) (key : JournalKey) : Look f key (f.container? key) := by
  unfold container?
  by_cases hr : f.registered = false
  · rw [if_pos hr]
    exact .refused _
  · rw [if_neg hr]
    have hr : f.registered = true := by simpa using hr
    cases hl : f.store.live? key with
    | some c => exact .found c hr hl
    | none =>
      cases f.resolver.enabledConfig? key.ns with
      | none => exact .absent
      | some config =>
        simp only
        cases config.split f.resolver.partitions with
        | error e => exact .refused e
        | ok storage =>
          simp only [Store.provide, hl]
          cases hc : Container.create key storage with
          | error e => exact .refused e
          | ok c => exact .begun c hr hl (new_of_create hc)

@[simp] theorem live?_beginWith (f : Feed β) (key : JournalKey) (c : Container EventRecord) :
    (f.beginWith key c).store.live? key = some c := by
  simp [beginWith, Store.live?, Store.journal]

theorem journal_beginWith (f : Feed β) (key : JournalKey) (c : Container EventRecord) :
    (f.beginWith key c).store.journal key = (f.store.journal key).push c := by
  simp [beginWith, Store.journal]

theorem journal_beginWith_of_ne (f : Feed β) {key key' : JournalKey} (h : key' ≠ key) (c : Container EventRecord) :
    (f.beginWith key c).store.journal key' = f.store.journal key' := by
  simp [beginWith, Store.journal, Table.get?_set_of_ne _ h]

/-- looking twice is looking once -/
theorem container?_again (f : Feed β) (key : JournalKey) : (f.container? key).1.container? key = f.container? key := by
  have h := container?_look f key
  generalize hp : f.container? key = p at h
  cases h with
  | refused e => exact hp
  | absent => exact hp
  | found c => exact hp
  | begun c hr => exact container?_live (show (f.beginWith key c).registered = true from hr) (live?_beginWith f key c)

theorem container_fst (f : Feed β) (key : JournalKey) : (f.container key).1 = (f.container? key).1 := by
  unfold container
  generalize f.container? key = p
  rcases p with ⟨f', e | (_ | c)⟩ <;> rfl

theorem query_fst {γ : Type} (f : Feed β) (key : JournalKey) (ask : Container EventRecord → Except JournalError γ) :
    (f.query key ask).1 = (f.container? key).1 := by
  rw [← container_fst]
  unfold query
  generalize f.container key = p
  rcases p with ⟨f', e | c⟩ <;> rfl

theorem answer_fst {γ : Type} (give : γ → Answer β) (p : Feed β × Except JournalError γ) : (answer give p).1 = p.1 := by
  rcases p with ⟨f', e | a⟩ <;> rfl

/-- subscribing asks two questions of one look -/
theorem subscribe_eq (f : Feed β) (key : JournalKey) : f.subscribe key = f.query key fun c => .ok (c.head, c.tail) := by
  have hagain := container?_again f key
  rcases hlook : f.container? key with ⟨f', e | (_ | c)⟩
  · simp only [subscribe, oldest, query, container, hlook]
  · simp only [subscribe, oldest, query, container, hlook]
  · rw [hlook] at hagain
    simp only [subscribe, oldest, newest, query, container, hlook, hagain]

theorem subscribe_fst (f : Feed β) (key : JournalKey) : (f.subscribe key).1 = (f.container? key).1 := by
  rw [subscribe_eq, query_fst]

/-- a container that was looked for with success bears the key -/
theorem key_of_container? {f f' : Feed β} (h : f.store.Keyed) {key : JournalKey} {c : Container EventRecord}
    (hl : f.container? key = (f', .ok (some c))) : c.key = key := by
  have hlook := container?_look f key
  rw [hl] at hlook
  cases hlook with
  | found _ _ hc => exact h.live hc
  | begun _ _ _ hc => exact hc.key

/-- cleaning a journal up is looking for it and putting back what the cleanup leaves of it -/
theorem cleanup_cases (f : Feed β) (key : JournalKey) (now : ℕ) :
    (f.cleanup key now).1 = (f.container? key).1 ∨
    ∃ f' c, f.container? key = (f', .ok (some c)) ∧
      (f.cleanup key now).1 = { f' with store := f'.store.put (c.cleanup now).1 } := by
  unfold cleanup container
  generalize f.container? key = p
  rcases p with ⟨f', e | (_ | c)⟩
  · exact Or.inl rfl
  · exact Or.inl rfl
  · exact Or.inr ⟨f', c, rfl, rfl⟩

theorem step_poll (encode : ω → Except WireError Data) (f : Feed β) (id : String) :
    (f.step encode (.poll id : Op ω β)).1 = (f.poll id).1 := by
  simp only [step]
  split <;> simp only [*]

theorem step_startWatch (encode : ω → Except WireError Data) (f : Feed β) (id name : String) :
    (f.step encode (.startWatch id name : Op ω β)).1 = (f.startWatch id name).1 := by
  simp only [step]
  split <;> simp only [*]

/-- looking for a journal changes the store alone -/
theorem container?_frame (f : Feed β) (key : JournalKey) :
    (f.container? key).1 = { f with store := (f.container? key).1.store } := by
  have h := container?_look f key
  generalize f.container? key = p at h
  cases h <;> rfl

theorem onHandle_frame (f : Feed β) (h : Handle)
    (act : Container EventRecord → Container EventRecord × Except JournalError (Answer β)) :
    (f.onHandle h act).1 = { f with store := (f.onHandle h act).1.store } := by
  unfold onHandle
  split <;> rfl

theorem query_frame {γ : Type} (f : Feed β) (key : JournalKey) (ask : Container EventRecord → Except JournalError γ) :
    (f.query key ask).1 = { f with store := (f.query key ask).1.store } := by
  rw [query_fst, container?_frame]

theorem cleanup_frame (f : Feed β) (key : JournalKey) (now : ℕ) :
    (f.cleanup key now).1 = { f with store := (f.cleanup key now).1.store } := by
  rcases cleanup_cases f key now with h | ⟨f', c, hp, h⟩
  · rw [h, container?_frame]
  · obtain ⟨store, rfl⟩ : ∃ store, f' = { f with store } := ⟨_, by rw [← container?_frame f key, hp]⟩
    rw [h]

end Feed

end Changefeed
