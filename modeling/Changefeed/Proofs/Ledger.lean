/-
The books of the store. What an operation makes of the store as a whole is one of five things (`Store.Moves`): it leaves it
as it is, uses a live container, creates one and uses it, uses one that was torn down through a handle, or tears one down.
So whatever the live containers weigh, their weight changes by what the operation appends, by the container it creates and
by the one it tears down.

Results:
- `step_moves`: every operation does one of these things to the store;
- `Moves.weigh`: what becomes of a weight of the live containers;
- `Moves.every`: what holds of new containers and is kept by their use holds of every container.
-/
import Changefeed.Proofs.Creation

namespace Changefeed

variable {ω β : Type}

/-- the record that an operation appends to a live container -/
def Op.grown? (encode : ω → Except WireError Data) (f : Feed β) (op : Op ω β) : Option EventRecord :=
  op.journal?.bind fun key => op.appended? encode f key

/-- the container that an operation tears down, as it was until then -/
def Op.torn? (f : Feed β) (op : Op ω β) : Option (Container EventRecord) :=
  op.journal?.bind fun key => if op.tearsDown f key then f.store.live? key else none

/-- a container that an operation creates under a key has settings that are admitted, or those that the operation names -/
def Op.Gives (f : Feed β) (op : Op ω β) (key : JournalKey) (storage : StorageConfig) : Prop :=
  (∃ config, f.resolver.Admits key.ns config storage) ∨ op = .provide key storage

namespace Table

variable {κ α : Type} [DecidableEq κ]

/-- setting a key twice is setting it to the last value -/
theorem set_set (t : Table κ α) (k : κ) (a b : α) : (t.set k a).set k b = t.set k b := by
  have hentries : ∀ l : List (κ × α), assign k b (assign k a l) = assign k b l := by
    intro l
    induction l with
    | nil => simp [assign]
    | cons e l ih => by_cases h : e.1 = k <;> simp [assign, h, ih]
  simp only [set, hentries]

/-- a sum over the values of a table loses the value that is replaced and gains the new one -/
theorem sum_set (t : Table κ α) (k : κ) (a : α) (w : α → ℤ) :
    ((t.set k a).entries.map fun e => w e.2).sum + ((t.get? k).map w).getD 0 =
      (t.entries.map fun e => w e.2).sum + w a := by
  have hentries : ∀ l : List (κ × α), ((assign k a l).map fun e => w e.2).sum + ((lookup k l).map w).getD 0 =
      (l.map fun e => w e.2).sum + w a := by
    intro l
    induction l with
    | nil => simp [assign, lookup]
    | cons e l ih =>
      by_cases h : e.1 = k
      · simp only [assign, lookup, h, if_true, List.map_cons, List.sum_cons, Option.map_some, Option.getD_some]
        omega
      · simp only [assign, lookup, h, if_false, List.map_cons, List.sum_cons]
        omega
  exact hentries t.entries

end Table

namespace Store

/-! ## Weights -/

/-- the live containers -/
def living (s : Store EventRecord) : List (Container EventRecord) := s.journals.entries.filterMap fun e => e.2.opened

/-- what the live containers weigh together -/
def weigh (s : Store EventRecord) (w : Container EventRecord → ℤ) : ℤ := (s.living.map w).sum

variable {s s' : Store EventRecord} {key : JournalKey} {c c' : Container EventRecord}

/-- how many containers are live is what they weigh if each of them weighs one -/
theorem weigh_one (s : Store EventRecord) : s.weigh (fun _ => 1) = s.size := by
  rw [weigh, List.map_const', List.sum_replicate, living, List.length_filterMap_eq_countP, size, Table.count]
  simp

theorem weigh_set (s : Store EventRecord) (key : JournalKey) (g : Generations (Container EventRecord))
    (w : Container EventRecord → ℤ) :
    ({ s with journals := s.journals.set key g } : Store EventRecord).weigh w + ((s.live? key).map w).getD 0 =
      s.weigh w + (g.opened.map w).getD 0 := by
  have hsum : ∀ s : Store EventRecord, s.weigh w = (s.journals.entries.map fun e => (e.2.opened.map w).getD 0).sum := by
    intro s
    rw [weigh, living]
    induction s.journals.entries with
    | nil => rfl
    | cons e entries ih =>
      rw [List.map_cons, List.sum_cons, ← ih, List.filterMap_cons]
      cases e.2.opened <;> simp
  have hset := Table.sum_set s.journals key g fun g => (g.opened.map w).getD 0
  rw [hsum, hsum, ← hset, live?, journal]
  cases s.journals.get? key <;> rfl

section Weights

variable {w : Container EventRecord → ℤ}

theorem weigh_put (hl : s.live? key = some c) (hk : c'.key = key) : (s.put c').weigh w + w c = s.weigh w + w c' := by
  subst hk
  have hset := weigh_set s c'.key { s.journal c'.key with opened := some c' } w
  rwa [hl] at hset

theorem weigh_opening (hn : s.live? key = none) (c : Container EventRecord) :
    (s.opening key c).weigh w = s.weigh w + w c := by
  have hset := weigh_set s key ((s.journal key).push c) w
  rw [hn, Generations.opened_push, Option.map_none, Option.getD_none, add_zero] at hset
  exact hset

/-- what is done to a container that was torn down does not weigh -/
theorem weigh_behind {h : Handle} (hn : h.generation ≠ (s.journal h.key).closed.length)
    (act : Container EventRecord → Container EventRecord) : (s.modify h act).weigh w = s.weigh w := by
  have hset := weigh_set s h.key ((s.journal h.key).modify h.generation act) w
  rw [(s.journal h.key).opened_modify_of_ne hn act] at hset
  exact add_right_cancel hset

theorem weigh_discard (hl : s.live? key = some c) : (s.discard key).1.weigh w + w c = s.weigh w := by
  have hset := weigh_set s key ((s.journal key).close id) w
  rw [hl, Generations.opened_close, Option.map_none, Option.getD_none, add_zero] at hset
  unfold discard
  rw [hl]
  exact hset

end Weights

/-! ## What becomes of the store -/

/-- What an operation makes of the store, what it appends to a live container, and the container that it tears down.
Containers are created with settings that are `given`. -/
inductive Moves (given : JournalKey → StorageConfig → Prop) (s : Store EventRecord) :
    Option EventRecord → Option (Container EventRecord) → Store EventRecord → Prop
  | kept : Moves given s none none s
  | used {key : JournalKey} {c c' : Container EventRecord} {a : Option EventRecord} (hl : s.live? key = some c)
      (hk : c.key = key) (hu : Feed.Used c a c') : Moves given s a none (s.put c')
  | begun {key : JournalKey} {config : StorageConfig} {c c' : Container EventRecord} {a : Option EventRecord}
      (hn : s.live? key = none) (hg : given key config) (hc : Container.create key config = .ok c)
      (hu : Feed.Used c a c') : Moves given s a none (s.opening key c')
  | behind {h : Handle} {c c' : Container EventRecord} {a : Option EventRecord}
      (hn : h.generation ≠ (s.journal h.key).closed.length) (hc : s.get? h = some c) (hu : Feed.Used c a c') :
      Moves given s none none (s.modify h fun _ => c')
  | torn {key : JournalKey} {c : Container EventRecord} (hl : s.live? key = some c) :
      Moves given s none (some c) (s.discard key).1

section Moves

variable {given : JournalKey → StorageConfig → Prop} {a : Option EventRecord} {torn : Option (Container EventRecord)}

theorem counts_discard (hl : s.live? key = some c) :
    (s.discard key).1.created = s.created ∧ (s.discard key).1.destroyed = s.destroyed + 1 := by
  unfold discard
  rw [hl]
  exact ⟨rfl, rfl⟩

/-- containers that are torn down are counted as such -/
theorem Moves.destroyed (h : Moves given s a torn s') : s'.destroyed = s.destroyed + torn.toList.length := by
  cases h with
  | torn hl => exact (counts_discard hl).2
  | _ => rfl

/-- no container was created, or one was, under a key that had none -/
theorem Moves.created (h : Moves given s a torn s') :
    Barren s s' ∨ s'.created = s.created + 1 ∧ ∃ key, s.live? key = none ∧ ∃ c, s'.live? key = some c := by
  cases h with
  | kept => exact Or.inl (.refl s)
  | used hl hk hu => exact Or.inl (barren_put hl (hu.key.trans hk))
  | @begun key config c c' a hn hg hc hu =>
    exact Or.inr ⟨rfl, key, hn, c', by simp [opening, live?, journal]⟩
  | @behind handle c c' a hn hc hu => exact Or.inl (barren_modify s handle _)
  | @torn key c hl => exact Or.inl (barren_discard s key)

/-- **What becomes of a weight.** If new containers weigh `base`, and a use of a container adds the weight of what it appends,
then the weight of the live containers grows by what is created and appended, and falls by what is torn down. -/
theorem Moves.weigh (h : Moves given s a torn s') (w : Container EventRecord → ℤ) (base : ℤ)
    (gain : Option EventRecord → ℤ) (hgain : gain none = 0)
    (hnew : ∀ key config c, Container.create key config = .ok c → w c = base)
    (hused : ∀ c a c', Feed.Used c a c' → w c' = w c + gain a) :
    s'.weigh w + (torn.map w).getD 0 = s.weigh w + base * (s'.created - s.created) + gain a := by
  cases h with
  | kept => simp [hgain]
  | @used key c c' a hl hk hu =>
    have hput := weigh_put (w := w) hl (hu.key.trans hk)
    have hcreated : (s.put c').created = s.created := rfl
    rw [hused c a c' hu] at hput
    simp only [Option.map_none, Option.getD_none, hcreated, sub_self, mul_zero]
    omega
  | @begun key config c c' a hn hg hc hu =>
    have hcreated : ((s.opening key c').created : ℤ) - s.created = 1 := by
      simp [opening]
    rw [weigh_opening hn, hused c a c' hu, hnew key config c hc, hcreated]
    simp only [Option.map_none, Option.getD_none, mul_one]
    omega
  | @behind handle c c' a hn hc hu =>
    have hcreated : (s.modify handle fun _ => c').created = s.created := rfl
    rw [weigh_behind hn, hcreated, hgain]
    simp
  | @torn key c hl =>
    have hdiscard := weigh_discard (w := w) hl
    rw [(counts_discard hl).1, hgain]
    simp only [Option.map_some, Option.getD_some, sub_self, mul_zero]
    omega

/-- a container that is there after a key was given other containers was there before, or is one of them -/
theorem get?_set (s : Store EventRecord) (key : JournalKey) (g : Generations (Container EventRecord)) (handle : Handle) :
    ({ s with journals := s.journals.set key g } : Store EventRecord).get? handle =
      if handle.key = key then g.get? handle.generation else s.get? handle := by
  unfold get?
  split
  · next hk => rw [hk, journal_set]
  · next hk => rw [journal_set_of_ne s hk]

/-- **What holds of new containers and is kept by their use holds of every container**, live or torn down. -/
theorem Moves.every {P : Container EventRecord → Prop}
    (hnew : ∀ key config c, given key config → Container.create key config = .ok c → P c)
    (hused : ∀ c a c', Feed.Used c a c' → P c → P c') (h : Moves given s a torn s')
    (hs : ∀ handle c, s.get? handle = some c → P c) : ∀ handle c, s'.get? handle = some c → P c := by
  have hlive : ∀ key c, s.live? key = some c → P c := by
    intro key c hc
    exact hs ⟨key, (s.journal key).closed.length⟩ c (get?_of_live hc)
  -- it is enough that it holds of the containers that a key is given
  have hset : ∀ key g, s'.journals = s.journals.set key g →
      (∀ n c, g.get? n = some c → (s.journal key).get? n = some c ∨ P c) →
      ∀ handle c, s'.get? handle = some c → P c := by
    intro key g hg hP handle c hc
    have hget := get?_set s key g handle
    rw [show ({ s with journals := s.journals.set key g } : Store EventRecord).get? handle = s'.get? handle by
      rw [get?, journal, get?, journal, hg], hc] at hget
    split at hget
    · next hk => exact (hP _ c hget.symm).elim (fun hold => hs handle c (by rw [get?, hk, hold])) id
    · exact hs handle c hget.symm
  cases h with
  | kept => exact hs
  | @used key c c' a hl hk hu =>
    refine hset c'.key _ rfl fun n d hd => ?_
    rw [Generations.get?_reopen] at hd
    split at hd
    · cases hd
      exact Or.inr (hused c a c' hu (hlive key c hl))
    · exact Or.inl hd
  | @begun key config c c' a hn hg hc hu =>
    refine hset key _ rfl fun n d hd => ?_
    rw [Generations.push_of_none hn, Generations.get?_reopen] at hd
    split at hd
    · cases hd
      exact Or.inr (hused c a c' hu (hnew key config c hg hc))
    · exact Or.inl hd
  | @behind handle c c' a hn hc hu =>
    refine hset handle.key _ rfl fun n d hd => ?_
    rw [Generations.get?_modify, show (s.journal handle.key).get? handle.generation = some c from hc] at hd
    split at hd
    · cases hd
      exact Or.inr (hused c a c' hu (hs handle c hc))
    · exact Or.inl hd
  | @torn key c hl =>
    refine hset key ((s.journal key).close id) ?_ fun n d hd => ?_
    · unfold discard
      rw [hl]
    · rw [Generations.get?_close, Option.map_id, id] at hd
      split at hd
      · exact Or.inr (hlive key d hd)
      · exact Or.inl hd

end Moves

/-- changing the live container through its handle is putting another one in its place -/
theorem modify_live {h : Handle} (hl : s.live? h.key = some c) (hn : h.generation = (s.journal h.key).closed.length)
    (hk : c'.key = h.key) : (s.modify h fun _ => c') = s.put c' := by
  have hopened : (s.journal h.key).opened = some c := hl
  rw [modify, put, hk, Generations.modify, if_pos hn, hopened]
  rfl

/-- a new container that is used at once could have been created as the use leaves it -/
theorem put_opening (s : Store EventRecord) (c : Container EventRecord) (hk : c'.key = key) :
    (s.opening key c).put c' = s.opening key c' := by
  subst hk
  simp only [put, journal_opening]
  simp only [opening, Table.set_set]
  rfl

end Store

namespace Feed

section Steps

variable {f : Feed β} {given : JournalKey → StorageConfig → Prop}

theorem moves_container? (hgiven : ∀ key config storage, f.resolver.Admits key.ns config storage → given key storage)
    (key : JournalKey) : f.store.Moves given none none (f.container? key).1.store := by
  have hlook := container?_look f key
  generalize hp : f.container? key = p at hlook
  cases hlook with
  | refused e => exact .kept
  | absent => exact .kept
  | found c => exact .kept
  | begun c hr hn hc =>
    obtain ⟨config, hadmits, hcreated, -⟩ := created_of_container? hn hp
    exact .begun hn (hgiven key config c.config hadmits) hcreated .seen

/-- a use of the container that a look gives -/
theorem moves_container?_put (hkeyed : f.store.Keyed)
    (hgiven : ∀ key config storage, f.resolver.Admits key.ns config storage → given key storage) {f' : Feed β}
    {key : JournalKey} {c c' : Container EventRecord} {a : Option EventRecord}
    (hp : f.container? key = (f', .ok (some c))) (hu : Used c a c') : f.store.Moves given a none (f'.store.put c') := by
  have hlook := container?_look f key
  rw [hp] at hlook
  cases hlook with
  | found _ hr hc => exact .used hc (hkeyed.live hc) hu
  | begun _ hr hn hc =>
    obtain ⟨config, hadmits, hcreated, -⟩ := created_of_container? hn hp
    have hput := Store.put_opening f.store c (hu.key.trans hc.key)
    exact hput ▸ .begun hn (hgiven key config c.config hadmits) hcreated hu

theorem moves_discard (key : JournalKey) : f.store.Moves given none (f.store.live? key) (f.store.discard key).1 := by
  cases hl : f.store.live? key with
  | none =>
    rw [Store.discard, hl]
    exact .kept
  | some c => exact .torn hl

/-- a use through a handle appends to a live container if the handle is that of one -/
theorem moves_modify (hkeyed : f.store.Keyed) {h : Handle} {c c' : Container EventRecord} {a : Option EventRecord}
    (hget : f.store.get? h = some c) (hu : Used c a c') :
    f.store.Moves given (if f.store.handle? h.key = some h then a else none) none (f.store.modify h fun _ => c') := by
  by_cases hn : h.generation = (f.store.journal h.key).closed.length
  · have hlive : f.store.live? h.key = some c := (Store.get?_eq_live? hn).symm.trans hget
    have hkey := hkeyed.live hlive
    rw [if_pos (Store.handle?_of_get? hget hn), Store.modify_live hlive hn (hu.key.trans hkey)]
    exact .used hlive hkey hu
  · rw [if_neg fun heq => hn (Store.handle?_eq_some_iff.1 heq).2.2]
    exact .behind hn hget hu

theorem moves_provide {key : JournalKey} {config : StorageConfig} (hgiven : given key config) {store : Store EventRecord}
    {c : Container EventRecord} (h : f.store.provide key config = .ok (store, c)) : f.store.Moves given none none store := by
  rcases Store.provide_ok h with ⟨-, rfl⟩ | ⟨hn, hc, rfl⟩
  · exact .kept
  · exact .begun hn hgiven hc .seen

/-- **Every operation does one thing to the store**, with the record and the container that the operation alone tells. -/
theorem step_moves (encode : ω → Except WireError Data) (hkeyed : f.store.Keyed) (op : Op ω β) :
    f.store.Moves (op.Gives f) (op.grown? encode f) (op.torn? f) (f.step encode op).1.store := by
  have hgiven : ∀ key config storage, f.resolver.Admits key.ns config storage → op.Gives f key storage :=
    fun _ config _ hadmits => Or.inl ⟨config, hadmits⟩
  have hmoves : ∀ {appended tears s}, Leaves f op appended tears s → f.store.Moves (op.Gives f) (op.journal?.bind appended)
      (op.journal?.bind fun key => if tears key then f.store.live? key else none) s := by
    intro appended tears s h
    cases h with
    | same =>
      simp only [Bool.false_eq_true, if_false, Option.bind_fun_none]
      exact .kept
    | looked k =>
      simp only [Bool.false_eq_true, if_false, Option.bind_fun_none]
      exact moves_container? hgiven k
    | used hop hp hu =>
      simp only [hop, Option.bind_some, if_true, Bool.false_eq_true, if_false]
      exact moves_container?_put hkeyed hgiven hp hu
    | held hop hc hu _ =>
      simp only [hop, Option.bind_some, Bool.false_eq_true, if_false]
      exact moves_modify hkeyed hc hu
    | provided hop hp =>
      simp only [Bool.false_eq_true, if_false, Option.bind_fun_none]
      exact moves_provide (Or.inr hop) hp
    | discarded hop =>
      simp only [hop, Option.bind_some, Option.bind_fun_none, decide_true, if_true]
      exact moves_discard _
  exact hmoves (step_leaves encode f op)

end Steps

end Feed

end Changefeed
