/-
A store is a map from keys to containers that exist somewhere else. Containers are things with an identity (`Handle`), which
those who hold one can use whether the store still knows it or not; so a roster has all containers that were ever made, by
identity, and a map from keys to the identities of the live ones. What the calls to a store do is what they do to the map
(`Serves`): a live container is given to whoever asks for one, whatever settings are asked with; a missing one is made, with
an identity that no container has had, or refused for its settings; a destroyed one leaves the map, and stays what it is for
those who hold it.

The store itself numbers the containers of each key and keeps them with the key (`Represents`).

Results:
- `represents_call`, `represents_calls`: every call to the store is that call to the roster, with the same reply;
- `Roster.Kept`: identities in the map have containers, which bear the keys of the map, and no two keys share one;
- `Roster.Gone.run`: a container that left the map is not given out again;
- `store_is_map`: all of it, for every sequence of calls to a new store.
-/
import Mathlib.Data.Finmap
import Changefeed.Proofs.Journals
import Changefeed.Proofs.Refinement

namespace Changefeed

variable {α : Type}

namespace Store

/-- a call to a store, or the use of a container by somebody who holds it -/
inductive Call (α : Type) where
  | provide (key : JournalKey) (config : StorageConfig)
  | find (key : JournalKey)
  | discard (key : JournalKey)
  | count
  | inPartition (part : ℕ)
  | use (id : Handle) (act : Act α)

/-- what a call gives -/
inductive Reply (α : Type) where
  | container (id : Handle) (c : Container α)
  | absent
  | refused (e : JournalError)
  | flag (b : Bool)
  | number (n : ℕ)
  | containers (cs : List (Container α))
  | done

/-- a container that was got under a key, with the identity that the key has -/
def identify (s : Store α) (key : JournalKey) (c? : Option (Container α)) : Reply α :=
  match s.handle? key, c? with
  | some id, some c => .container id c
  | _, _ => .absent

/-- the store after a call, with the reply -/
def call (s : Store α) : Call α → Store α × Reply α
  | .provide key config =>
    match s.provide key config with
    | .error e => (s, .refused e)
    | .ok (s, c) => (s, s.identify key (some c))
  | .find key => (s, s.identify key (s.live? key))
  | .discard key =>
    let (s, b) := s.discard key
    (s, .flag b)
  | .count => (s, .number s.size)
  | .inPartition part => (s, .containers (s.inPartition part))
  | .use id act => (s.modify id fun c => (c.act act).1, .done)

/-- the store after several calls, with the replies -/
def calls (s : Store α) : List (Call α) → Store α × List (Reply α)
  | [] => (s, [])
  | c :: cs =>
    let (s, r) := s.call c
    let (s, rs) := s.calls cs
    (s, r :: rs)

theorem calls_append (s : Store α) (cs cs' : List (Call α)) :
    s.calls (cs ++ cs') = (((s.calls cs).1.calls cs').1, (s.calls cs).2 ++ ((s.calls cs).1.calls cs').2) := by
  induction cs generalizing s with
  | nil => rfl
  | cons c cs ih => simp [calls, ih]

end Store

theorem Container.key_act (c : Container α) (a : Act α) : (c.act a).1.key = c.key := by
  cases a with
  | append item now => rfl
  | cleanup now => exact key_cleanup c now

open Store (Call Reply)

/-! ## The map -/

/-- an empty container with these settings -/
structure Container.Blank (key : JournalKey) (config : StorageConfig) (c : Container α) : Prop where
  key : c.key = key
  settings : c.config = config
  head : c.head = 0
  tail : c.tail = -1
  size : c.size = 0
  remaining : c.remaining = config.capacity.toNat

theorem Container.blank_of_create {key : JournalKey} {config : StorageConfig} {c : Container α}
    (h : create key config = .ok c) : c.Blank key config := by
  unfold create at h
  split at h
  · cases h
  · cases h
    refine ⟨rfl, rfl, rfl, rfl, rfl, ?_⟩
    simp [remaining, RingBuffer.size, RingBuffer.empty, RingBuffer.capacity]

/-- all containers that were made, by identity, and which of them are live, by key -/
structure Roster (α : Type) where
  live : Finmap fun _ : JournalKey => Handle
  made : Handle → Option (Container α)

namespace Roster

/-- nothing was made -/
def empty : Roster α := ⟨∅, fun _ => none⟩

/-- a container is made and put under a key -/
def install (r : Roster α) (key : JournalKey) (id : Handle) (c : Container α) : Roster α :=
  ⟨r.live.insert key id, Function.update r.made id (some c)⟩

/-- a key is taken out of the map; what was made stays -/
def strike (r : Roster α) (key : JournalKey) : Roster α := { r with live := r.live.erase key }

/-- a container is changed by somebody who holds it -/
def use (r : Roster α) (id : Handle) (act : Act α) : Roster α :=
  { r with made := Function.update r.made id ((r.made id).map fun c => (c.act act).1) }

@[simp] theorem lookup_install (r : Roster α) (key key' : JournalKey) (id : Handle) (c : Container α) :
    (r.install key id c).live.lookup key' = if key' = key then some id else r.live.lookup key' := by
  by_cases h : key' = key
  · rw [if_pos h, h, install, Finmap.lookup_insert]
  · rw [if_neg h, install, Finmap.lookup_insert_of_ne _ h]

@[simp] theorem made_install (r : Roster α) (key : JournalKey) (id id' : Handle) (c : Container α) :
    (r.install key id c).made id' = if id' = id then some c else r.made id' :=
  Function.update_apply ..

@[simp] theorem lookup_strike (r : Roster α) (key key' : JournalKey) :
    (r.strike key).live.lookup key' = if key' = key then none else r.live.lookup key' := by
  by_cases h : key' = key
  · rw [if_pos h, h, strike, Finmap.lookup_erase]
  · rw [if_neg h, strike, Finmap.lookup_erase_ne h]

@[simp] theorem made_strike (r : Roster α) (key : JournalKey) (id : Handle) : (r.strike key).made id = r.made id := rfl

@[simp] theorem lookup_use (r : Roster α) (id : Handle) (act : Act α) (key : JournalKey) :
    (r.use id act).live.lookup key = r.live.lookup key := rfl

@[simp] theorem made_use (r : Roster α) (id id' : Handle) (act : Act α) :
    (r.use id act).made id' = if id' = id then (r.made id).map (fun c => (c.act act).1) else r.made id' :=
  Function.update_apply ..

/-- what a call does to a roster, and what it gives -/
inductive Serves (r : Roster α) : Call α → Reply α → Roster α → Prop
  | present {key : JournalKey} {id : Handle} {c : Container α} (config : StorageConfig)
      (live : r.live.lookup key = some id) (made : r.made id = some c) :
      Serves r (.provide key config) (.container id c) r
  | installed {key : JournalKey} {config : StorageConfig} {id : Handle} {c : Container α}
      (vacant : r.live.lookup key = none) (room : config.capacity ≠ 0) (fresh : r.made id = none)
      (blank : c.Blank key config) : Serves r (.provide key config) (.container id c) (r.install key id c)
  | refused {key : JournalKey} {config : StorageConfig} (vacant : r.live.lookup key = none)
      (cramped : config.capacity = 0) :
      Serves r (.provide key config)
        (.refused (.invalidConfig ("journal container " ++ key.ns.text ++ " partition " ++ toString key.part ++
          " needs a positive capacity"))) r
  | found {key : JournalKey} {id : Handle} {c : Container α} (live : r.live.lookup key = some id)
      (made : r.made id = some c) : Serves r (.find key) (.container id c) r
  | missing {key : JournalKey} (vacant : r.live.lookup key = none) : Serves r (.find key) .absent r
  | discarded {key : JournalKey} (live : key ∈ r.live) : Serves r (.discard key) (.flag true) (r.strike key)
  | spared {key : JournalKey} (vacant : key ∉ r.live) : Serves r (.discard key) (.flag false) r
  | counted : Serves r .count (.number r.live.keys.card) r
  | listed {part : ℕ} {ids : List Handle} {cs : List (Container α)} (once : ids.Nodup)
      (all : ∀ id, id ∈ ids ↔ ∃ ns, r.live.lookup ⟨ns, part⟩ = some id)
      (made : List.Forall₂ (fun id c => r.made id = some c) ids cs) : Serves r (.inPartition part) (.containers cs) r
  | used (id : Handle) (act : Act α) : Serves r (.use id act) .done (r.use id act)

/-- what several calls do, and what they give -/
inductive Run : Roster α → List (Call α) → List (Reply α) → Roster α → Prop
  | nil (r : Roster α) : Run r [] [] r
  | cons {r r' r'' : Roster α} {call : Call α} {reply : Reply α} {calls : List (Call α)} {replies : List (Reply α)}
      (first : Serves r call reply r') (rest : Run r' calls replies r'') : Run r (call :: calls) (reply :: replies) r''

/-! ## What the map keeps -/

/-- the identities in the map have containers, which bear the keys they are under; so no two keys have the same one -/
def Kept (r : Roster α) : Prop := ∀ key id, r.live.lookup key = some id → ∃ c, r.made id = some c ∧ c.key = key

theorem kept_empty : (empty : Roster α).Kept := by
  intro key id h
  simp [empty] at h

theorem Kept.step {r r' : Roster α} {call : Call α} {reply : Reply α} (h : r.Kept) (hs : Serves r call reply r') :
    r'.Kept := by
  cases hs with
  | @installed key config id c vacant room fresh blank =>
    intro key' id' hlive
    rw [lookup_install] at hlive
    rw [made_install]
    split at hlive
    next hk =>
      cases hlive
      exact ⟨c, if_pos rfl, blank.key.trans hk.symm⟩
    next =>
      obtain ⟨c', hmade, hkey⟩ := h key' id' hlive
      have hne : id' ≠ id := by
        rintro rfl
        rw [fresh] at hmade
        cases hmade
      exact ⟨c', (if_neg hne).trans hmade, hkey⟩
  | @discarded key live =>
    intro key' id' hlive
    rw [lookup_strike] at hlive
    split at hlive
    · cases hlive
    · exact h key' id' hlive
  | used id act =>
    intro key' id' hlive
    obtain ⟨c, hmade, hkey⟩ := h key' id' hlive
    rw [made_use]
    split
    next heq =>
      rw [← heq, hmade]
      exact ⟨_, rfl, (Container.key_act c act).trans hkey⟩
    next => exact ⟨c, hmade, hkey⟩
  | _ => exact h

theorem Kept.run {r r' : Roster α} {calls : List (Call α)} {replies : List (Reply α)} (h : r.Kept)
    (hrun : Run r calls replies r') : r'.Kept := by
  induction hrun with
  | nil r => exact h
  | cons first rest ih => exact ih (h.step first)

/-- the container was made, and is live no more -/
structure Gone (r : Roster α) (id : Handle) : Prop where
  made : r.made id ≠ none
  dead : ∀ key, r.live.lookup key ≠ some id

/-- a container whose key is destroyed is gone, as no other key has it -/
theorem Kept.gone_of_discard {r r' : Roster α} (h : r.Kept) {key : JournalKey} {id : Handle} {reply : Reply α}
    (hlive : r.live.lookup key = some id) (hs : Serves r (.discard key) reply r') : r'.Gone id := by
  cases hs with
  | spared vacant =>
    rw [← Finmap.lookup_eq_none, hlive] at vacant
    cases vacant
  | discarded live =>
    obtain ⟨c, hmade, hkey⟩ := h key id hlive
    refine ⟨by simp [hmade], fun key' hlive' => ?_⟩
    rw [lookup_strike] at hlive'
    split at hlive'
    · cases hlive'
    next hne =>
      obtain ⟨c', hmade', hkey'⟩ := h key' id hlive'
      cases hmade.symm.trans hmade'
      exact hne (hkey'.symm.trans hkey)

/-- a container that is gone stays so, and is not given out -/
theorem Gone.step {r r' : Roster α} {id : Handle} {call : Call α} {reply : Reply α} (h : r.Gone id)
    (hs : Serves r call reply r') : r'.Gone id ∧ ∀ c, reply ≠ .container id c := by
  cases hs with
  | present config live made => exact ⟨h, by rintro c ⟨⟩; exact h.dead _ live⟩
  | found live made => exact ⟨h, by rintro c ⟨⟩; exact h.dead _ live⟩
  | @installed key config id' c vacant room fresh blank =>
    have hne : id ≠ id' := by
      rintro rfl
      exact h.made fresh
    refine ⟨⟨by simpa [hne] using h.made, fun key' hlive => ?_⟩, by rintro c ⟨⟩; exact hne rfl⟩
    rw [lookup_install] at hlive
    split at hlive
    · exact hne (Option.some.inj hlive).symm
    · exact h.dead key' hlive
  | @discarded key live =>
    refine ⟨⟨h.made, fun key' hlive => ?_⟩, by rintro c ⟨⟩⟩
    rw [lookup_strike] at hlive
    split at hlive
    · cases hlive
    · exact h.dead key' hlive
  | used id' act =>
    refine ⟨⟨fun hnone => ?_, h.dead⟩, by rintro c ⟨⟩⟩
    rw [made_use] at hnone
    split at hnone
    next heq => exact h.made (heq ▸ Option.map_eq_none_iff.1 hnone)
    next => exact h.made hnone
  | _ => exact ⟨h, by rintro c ⟨⟩⟩

/-- **A container that left the map is not given out again.** -/
theorem Gone.run {r r' : Roster α} {id : Handle} {calls : List (Call α)} {replies : List (Reply α)} (h : r.Gone id)
    (hrun : Run r calls replies r') : ∀ reply ∈ replies, ∀ c, reply ≠ .container id c := by
  induction hrun with
  | nil r => simp
  | cons first rest ih =>
    obtain ⟨hgone, hfirst⟩ := h.step first
    exact List.forall_mem_cons.2 ⟨hfirst, ih hgone⟩

end Roster

/-! ## What the store keeps -/

namespace Store

section Lookups

variable {s : Store α} {key : JournalKey} {c : Container α}

theorem identify_of_live (h : s.live? key = some c) :
    s.identify key (some c) = .container ⟨key, (s.journal key).closed.length⟩ c := by
  simp only [identify, handle?_of_live h]

theorem identify_of_vacant (h : s.live? key = none) : s.identify key (s.live? key) = .absent := by
  simp only [identify, handle?_of_vacant h]

end Lookups

/-- the store is this roster: it finds the same identities under the keys, and the same containers behind them -/
structure Represents (s : Store α) (r : Roster α) : Prop where
  live : ∀ key, r.live.lookup key = s.handle? key
  made : ∀ id, r.made id = s.get? id
  keyed : s.Keyed

theorem represents_empty : Represents (empty : Store α) .empty := by
  refine ⟨fun key => ?_, fun id => ?_, keyed_empty⟩
  · simp [Roster.empty, handle?, journal, empty, Generations.empty, Generations.openId?]
  · simp [Roster.empty, get?, journal, empty, Generations.empty, Generations.get?]

section Calls

variable {s : Store α} {r : Roster α}

/-- what is found in the store is in the map -/
theorem Represents.present (h : Represents s r) {key : JournalKey} {c : Container α} (hlive : s.live? key = some c) :
    r.live.lookup key = some ⟨key, (s.journal key).closed.length⟩ ∧
      r.made ⟨key, (s.journal key).closed.length⟩ = some c :=
  ⟨(h.live key).trans (handle?_of_live hlive), (h.made _).trans (get?_of_live hlive)⟩

theorem Represents.vacant (h : Represents s r) {key : JournalKey} (hlive : s.live? key = none) : r.live.lookup key = none :=
  (h.live key).trans (handle?_of_vacant hlive)

theorem represents_find (h : Represents s r) (key : JournalKey) :
    ∃ r', r.Serves (.find key) (s.call (.find key)).2 r' ∧ Represents (s.call (.find key)).1 r' := by
  refine ⟨r, ?_, h⟩
  show r.Serves (.find key) (s.identify key (s.live? key)) r
  cases hlive : s.live? key with
  | none =>
    rw [← hlive, identify_of_vacant hlive]
    exact .missing (h.vacant hlive)
  | some c =>
    rw [identify_of_live hlive]
    exact .found (h.present hlive).1 (h.present hlive).2

theorem represents_provide (h : Represents s r) (key : JournalKey) (config : StorageConfig) :
    ∃ r', r.Serves (.provide key config) (s.call (.provide key config)).2 r' ∧
      Represents (s.call (.provide key config)).1 r' := by
  cases hlive : s.live? key with
  | some c =>
    have hcall : s.call (.provide key config) = (s, s.identify key (some c)) := by simp only [call, live?_provide hlive]
    rw [hcall, identify_of_live hlive]
    exact ⟨r, .present config (h.present hlive).1 (h.present hlive).2, h⟩
  | none =>
    cases hcreate : (Container.create key config : Except JournalError (Container α)) with
    | error e =>
      have hcall : s.call (.provide key config) = (s, .refused e) := by simp only [call, provide, hlive, hcreate]
      rw [hcall]
      unfold Container.create at hcreate
      split at hcreate
      next hcramped =>
        cases hcreate
        exact ⟨r, .refused (h.vacant hlive) hcramped, h⟩
      next => cases hcreate
    | ok c =>
      have hcall : s.call (.provide key config) = (s.opening key c, (s.opening key c).identify key (some c)) := by
        simp only [call, provide, hlive, hcreate]
        rfl
      have hopened : (s.opening key c).live? key = some c := by rw [live?, journal_opening]; rfl
      have hclosed : ((s.opening key c).journal key).closed.length = (s.journal key).closed.length := by
        have hhandle := handle?_of_live hopened
        rw [handle?_opening hlive, if_pos rfl] at hhandle
        exact (Handle.mk.inj (Option.some.inj hhandle)).2.symm
      have hroom : config.capacity ≠ 0 := by
        intro hcramped
        rw [Container.create, if_pos hcramped] at hcreate
        cases hcreate
      rw [hcall, identify_of_live hopened, hclosed]
      refine ⟨_, .installed (h.vacant hlive) hroom ?_ (Container.blank_of_create hcreate), ?_, ?_, ?_⟩
      · -- the number that the key has come to was not given before
        rw [h.made, get?_eq_live? rfl, hlive]
      · intro key'
        rw [Roster.lookup_install, handle?_opening hlive, h.live]
      · intro id
        rw [Roster.made_install, get?_opening hlive, h.made]
      · intro key' n c' hget
        have hget' : (s.opening key c).get? ⟨key', n⟩ = some c' := hget
        rw [get?_opening hlive] at hget'
        split at hget'
        next heq =>
          cases hget'
          cases heq
          exact Container.key_create hcreate
        next => exact h.keyed key' n c' hget'

theorem represents_discard (h : Represents s r) (key : JournalKey) :
    ∃ r', r.Serves (.discard key) (s.call (.discard key)).2 r' ∧ Represents (s.call (.discard key)).1 r' := by
  have hmem : key ∈ r.live ↔ (s.handle? key).isSome = true := by rw [← Finmap.lookup_isSome, h.live]
  cases hlive : s.live? key with
  | none =>
    have hcall : s.call (.discard key) = (s, .flag false) := by simp only [call, discard, hlive]
    rw [hcall]
    exact ⟨r, .spared (by rw [hmem, handle?_of_vacant hlive]; simp), h⟩
  | some c =>
    have hcall : s.call (.discard key) = ((s.discard key).1, .flag true) := by simp only [call, discard, hlive]
    rw [hcall]
    refine ⟨r.strike key, .discarded (by rw [hmem, handle?_of_live hlive]; rfl), fun key' => ?_, fun id => ?_, ?_⟩
    · rw [Roster.lookup_strike, handle?_discard, h.live]
    · rw [Roster.made_strike, get?_discard, h.made]
    · intro key' n c' hget
      exact h.keyed key' n c' ((get?_discard s key ⟨key', n⟩).symm.trans hget)

theorem represents_count (h : Represents s r) :
    ∃ r', r.Serves .count (s.call .count).2 r' ∧ Represents (s.call .count).1 r' := by
  obtain ⟨keys, hkeys, hcard⟩ := s.journals.count_eq_card fun g => g.opened.isSome
  have hsame : r.live.keys = keys := by
    ext key
    rw [Finmap.mem_keys, ← Finmap.lookup_isSome, h.live, hkeys, handle?, Generations.openId?, journal]
    cases s.journals.get? key with
    | none => simp [Generations.empty]
    | some g => simp
  have hcall : s.call .count = (s, .number r.live.keys.card) := by rw [hsame, ← hcard]; rfl
  rw [hcall]
  exact ⟨r, .counted, h⟩

theorem represents_inPartition (h : Represents s r) (part : ℕ) :
    ∃ r', r.Serves (.inPartition part) (s.call (.inPartition part)).2 r' ∧
      Represents (s.call (.inPartition part)).1 r' := by
  let identity (c : Container α) : Handle := ⟨c.key, (s.journal c.key).closed.length⟩
  have honce : ((s.inPartition part).map identity).Nodup := by
    refine List.Nodup.of_map Handle.key ?_
    rw [List.map_map]
    exact nodup_inPartition h.keyed part
  refine ⟨r, .listed honce (fun id => ?_) ?_, h⟩
  · rw [List.mem_map]
    constructor
    · rintro ⟨c, hc, rfl⟩
      obtain ⟨hpart, hlive⟩ := (mem_inPartition h.keyed).1 hc
      exact ⟨c.key.ns, by rw [← hpart]; exact (h.present hlive).1⟩
    · rintro ⟨ns, hlookup⟩
      rw [h.live] at hlookup
      cases hlive : s.live? ⟨ns, part⟩ with
      | none =>
        rw [handle?_of_vacant hlive] at hlookup
        cases hlookup
      | some c =>
        rw [handle?_of_live hlive] at hlookup
        have hkey : c.key = ⟨ns, part⟩ := h.keyed.live hlive
        refine ⟨c, (mem_inPartition h.keyed).2 ⟨by rw [hkey], hkey ▸ hlive⟩, ?_⟩
        rw [← Option.some.inj hlookup, ← hkey]
  · rw [List.forall₂_map_left_iff, List.forall₂_same]
    exact fun c hc => (h.present ((mem_inPartition h.keyed).1 hc).2).2

theorem represents_use (h : Represents s r) (id : Handle) (act : Act α) :
    ∃ r', r.Serves (.use id act) (s.call (.use id act)).2 r' ∧ Represents (s.call (.use id act)).1 r' := by
  refine ⟨_, .used id act, fun key => ?_, fun id' => ?_, ?_⟩
  · rw [Roster.lookup_use, h.live]
    exact (handle?_modify s id _ key).symm
  · rw [Roster.made_use, h.made, h.made]
    exact (get?_modify s id id' _).symm
  · intro key n c hget
    have hget' : (s.modify id fun c => (c.act act).1).get? ⟨key, n⟩ = some c := hget
    rw [get?_modify] at hget'
    split at hget'
    next heq =>
      obtain ⟨c', hc', rfl⟩ := Option.map_eq_some_iff.1 hget'
      rw [Container.key_act]
      exact h.keyed key n c' (by rw [← heq] at hc'; exact hc')
    next => exact h.keyed key n c hget'

/-- **A call to the store is that call to the roster**, with the same reply. -/
theorem represents_call (h : Represents s r) (call : Call α) :
    ∃ r', r.Serves call (s.call call).2 r' ∧ Represents (s.call call).1 r' := by
  cases call with
  | provide key config => exact represents_provide h key config
  | find key => exact represents_find h key
  | discard key => exact represents_discard h key
  | count => exact represents_count h
  | inPartition part => exact represents_inPartition h part
  | use id act => exact represents_use h id act

/-- so are several of them -/
theorem represents_calls (h : Represents s r) (calls : List (Call α)) :
    ∃ r', r.Run calls (s.calls calls).2 r' ∧ Represents (s.calls calls).1 r' := by
  induction calls generalizing s r with
  | nil => exact ⟨r, .nil r, h⟩
  | cons call calls ih =>
    obtain ⟨r', hserves, h'⟩ := represents_call h call
    obtain ⟨r'', hrun, h''⟩ := ih h'
    exact ⟨r'', .cons hserves hrun, h''⟩

/-- what is found under a key is in the map -/
theorem Represents.found (h : Represents s r) {key : JournalKey} {id : Handle} {c : Container α}
    (hfound : (s.call (.find key)).2 = .container id c) : r.live.lookup key = some id := by
  have hidentify : s.identify key (s.live? key) = .container id c := hfound
  cases hlive : s.live? key with
  | none =>
    rw [identify_of_vacant hlive] at hidentify
    cases hidentify
  | some c' =>
    rw [hlive, identify_of_live hlive] at hidentify
    cases hidentify
    exact (h.present hlive).1

end Calls

/-- **A store is a map of generations.** Whatever the calls are, a new store replies to them as a map from keys to identities
does, where a container is given out as it is if it is live, and made empty with the settings asked with, or refused for
them, if it is not. Every container in the map bears the key that it is under, which is the key that its readers wait under.
An identity that was found under a key when the key was destroyed is not given out by any later call. -/
theorem store_is_map (calls : List (Call α)) :
    (∃ r : Roster α, Roster.empty.Run calls ((empty : Store α).calls calls).2 r ∧ Represents (empty.calls calls).1 r ∧
      ∀ key id, r.live.lookup key = some id → ∃ c, r.made id = some c ∧ c.key = key ∧
        ∀ (ω β : Type) (encode : ω → Except WireError Data) (f : Feed β),
          (f.step encode (.waitKey key)).2 = .ok (.key c.key)) ∧
    ∀ (before after : List (Call α)) (key : JournalKey) (id : Handle) (c : Container α),
      calls = before ++ .discard key :: after →
      (((empty : Store α).calls before).1.call (.find key)).2 = .container id c →
      ∀ reply ∈ (((empty : Store α).calls (before ++ [.discard key])).1.calls after).2, ∀ c', reply ≠ .container id c' := by
  constructor
  · obtain ⟨r, hrun, hr⟩ := represents_calls (represents_empty : Represents (empty : Store α) .empty) calls
    refine ⟨r, hrun, hr, fun key id hlive => ?_⟩
    obtain ⟨c, hmade, hkey⟩ := Roster.kept_empty.run hrun key id hlive
    exact ⟨c, hmade, hkey, fun ω β encode f => by rw [hkey]; rfl⟩
  · rintro before after key id c - hfound
    obtain ⟨r, hrun, hr⟩ := represents_calls (represents_empty : Represents (empty : Store α) .empty) before
    obtain ⟨r', hserves, hr'⟩ := represents_discard hr key
    obtain ⟨r'', hrun', -⟩ := represents_calls hr' after
    rw [calls_append]
    exact ((Roster.kept_empty.run hrun).gone_of_discard (hr.found hfound) hserves).run hrun'

/-- no room, then room, then other settings; destroyed and made anew, a journal is another one -/
theorem store_is_map_anew :
    let key : JournalKey := ⟨Namespace.map "orders", 0⟩
    let before : List (Call String) :=
      [.provide key ⟨0, 0, 0, 0, .object⟩, .provide key ⟨4, 0, 0, 0, .object⟩, .provide key ⟨9, 0, 0, 0, .object⟩]
    let after : List (Call String) := [.find key, .provide key ⟨9, 0, 0, 0, .object⟩, .find key, .count]
    let c : Container String := ⟨key, ⟨4, 0, 0, 0, .object⟩, RingBuffer.empty 4⟩
    (((empty : Store String).calls before).1.call (.find key)).2 = .container ⟨key, 0⟩ c ∧
      ∀ reply ∈ (((empty : Store String).calls (before ++ [.discard key])).1.calls after).2,
        ∀ c', reply ≠ .container ⟨key, 0⟩ c' := by
  intro key before after c
  have hfound : (((empty : Store String).calls before).1.call (.find key)).2 = .container ⟨key, 0⟩ c := rfl
  exact ⟨hfound, (store_is_map (before ++ .discard key :: after)).2 before after key ⟨key, 0⟩ c rfl hfound⟩

end Store

end Changefeed
