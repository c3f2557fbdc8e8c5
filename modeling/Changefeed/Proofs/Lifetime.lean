/-
What a container has been through. Every container that anybody can get hold of was created with room for a record; since
then records were appended to it and expired ones dropped, in some order and at some clock readings (`Underwent`). So the log
that it mirrors is known from these operations alone.

Results:
- `Log.entries_perform`: the entries of a log are what was appended to it;
- `Underwent.mirrors`, `Underwent.records`: what a container shows, from the operations that it underwent;
- `underwent_run`: every container of a feed, live or torn down, is one of these.
-/
import Changefeed.Proofs.Refinement
import Changefeed.Proofs.Ledger

namespace Changefeed

namespace Act

variable {α : Type}

/-- the record that an operation appends, with the clock reading at that moment -/
def appended? : Act α → Option (α × ℕ)
  | .append item now => some (item, now)
  | .cleanup _ => none

/-- the records that were appended, in order, each with its clock reading -/
def appended (acts : List (Act α)) : List (α × ℕ) := acts.filterMap appended?

/-- the records that were appended, in order -/
def items (acts : List (Act α)) : List α := (appended acts).map Prod.fst

@[simp] theorem appended_nil : appended ([] : List (Act α)) = [] := rfl

@[simp] theorem appended_append (item : α) (now : ℕ) (acts : List (Act α)) :
    appended (.append item now :: acts) = (item, now) :: appended acts := rfl

@[simp] theorem appended_cleanup (now : ℕ) (acts : List (Act α)) :
    appended (.cleanup now :: acts) = appended acts := rfl

end Act

/-- the entries of a log are what was appended to it, each with the moment at which it expires -/
theorem Log.entries_perform {α : Type} (config : StorageConfig) (l : Log α) (acts : List (Act α)) :
    (l.perform config acts).1.entries =
      l.entries ++ (Act.appended acts).map fun p => ⟨p.1, deadline config.ttlSeconds.toNat p.2⟩ := by
  induction acts generalizing l with
  | nil => simp [perform]
  | cons a acts ih =>
    rw [perform, ih]
    cases a with
    | append item now => simp [act, append]
    | cleanup now => simp [act, expire]

namespace Container

variable {α : Type}

/-- the container was created, and these operations were performed on it since -/
def Underwent (c : Container α) (acts : List (Act α)) : Prop :=
  ∃ key config c₀, create key config = .ok c₀ ∧ c = (c₀.perform acts).1

theorem underwent_create {key : JournalKey} {config : StorageConfig} {c : Container α} (h : create key config = .ok c) :
    c.Underwent [] := ⟨key, config, c, h, rfl⟩

theorem Underwent.act {c : Container α} {acts : List (Act α)} (h : c.Underwent acts) (a : Act α) :
    (c.act a).1.Underwent (acts ++ [a]) := by
  obtain ⟨key, config, c₀, hc, rfl⟩ := h
  refine ⟨key, config, c₀, hc, ?_⟩
  rw [perform_append]
  rfl

theorem mirrors_of_create {key : JournalKey} {config : StorageConfig} {c : Container α} (h : create key config = .ok c) :
    Mirrors config c Log.empty := by
  have hne : config.capacity ≠ 0 := by
    intro h0
    rw [create, if_pos h0] at h
    cases h
  have hpos : 0 < config.capacity := UInt32.lt_iff_toNat_lt.2 (Nat.pos_of_ne_zero fun h0 => hne (UInt32.toNat_inj.1 h0))
  obtain ⟨c', hc', hmirrors⟩ : ∃ c' : Container α, create key config = .ok c' ∧ Mirrors config c' Log.empty :=
    mirrors_create hpos
  rw [h] at hc'
  cases hc'
  exact hmirrors

/-- a container mirrors the log that underwent the same operations -/
theorem Underwent.mirrors {c : Container α} {acts : List (Act α)} (h : c.Underwent acts) :
    Mirrors c.config c (Log.empty.perform c.config acts).1 := by
  obtain ⟨key, config, c₀, hc, rfl⟩ := h
  have hmirrors := (mirrors_perform (mirrors_of_create hc) acts).1
  rwa [hmirrors.settings]

theorem Underwent.entries {c : Container α} {acts : List (Act α)} (_ : c.Underwent acts) :
    (Log.empty.perform c.config acts).1.entries =
      (Act.appended acts).map fun p => ⟨p.1, Log.deadline c.config.ttlSeconds.toNat p.2⟩ :=
  Log.entries_perform c.config Log.empty acts

/-- a container was given what was appended -/
theorem Underwent.records {c : Container α} {acts : List (Act α)} (h : c.Underwent acts) : c.Records (Act.items acts) := by
  refine ⟨_, h.mirrors.ring, ?_⟩
  rw [h.entries, List.map_map]
  rfl

end Container

namespace Feed

variable {ω β : Type}

/-- a use of a container is an operation on it, if it changes the container at all -/
theorem Used.underwent {c c' : Container EventRecord} {a : Option EventRecord} (h : Used c a c')
    (hc : ∃ acts, c.Underwent acts) : ∃ acts, c'.Underwent acts := by
  obtain ⟨acts, hacts⟩ := hc
  cases h with
  | seen => exact ⟨acts, hacts⟩
  | cleaned now => exact ⟨_, hacts.act (.cleanup now)⟩
  | grown a now => exact ⟨_, hacts.act (.append a now)⟩

theorem underwent_step (encode : ω → Except WireError Data) {f : Feed β} (hkeyed : f.store.Keyed)
    (h : ∀ handle c, f.store.get? handle = some c → ∃ acts, c.Underwent acts) (op : Op ω β) :
    ∀ handle c, (f.step encode op).1.store.get? handle = some c → ∃ acts, c.Underwent acts :=
  (step_moves encode hkeyed op).every (fun _ _ _ _ hc => ⟨[], Container.underwent_create hc⟩)
    (fun _ _ _ hu hc => hu.underwent hc) h

/-- **Every container of a feed was created and underwent some operations**, whether it is live or was torn down. -/
theorem underwent_run (encode : ω → Except WireError Data) {f : Feed β} {past : JournalKey → List EventRecord}
    (hsound : f.Sound past) (h : ∀ handle c, f.store.get? handle = some c → ∃ acts, c.Underwent acts) (ops : List (Op ω β)) :
    ∀ handle c, (f.run encode ops).1.store.get? handle = some c → ∃ acts, c.Underwent acts := by
  induction ops generalizing f past with
  | nil => exact h
  | cons op ops ih => exact ih (sound_step encode hsound op) (underwent_step encode hsound.keyed h op)

/-- the journal of a key, after any run, is such a container -/
theorem underwent_of_live (encode : ω → Except WireError Data) (resolver : Resolver) (registered : Bool)
    (ops : List (Op ω β)) {key : JournalKey} {c : Container EventRecord}
    (hl : ((init resolver registered : Feed β).run encode ops).1.store.live? key = some c) : ∃ acts, c.Underwent acts := by
  have hget : ((init resolver registered : Feed β).run encode ops).1.store.get?
      ⟨key, (((init resolver registered : Feed β).run encode ops).1.store.journal key).closed.length⟩ = some c :=
    (Store.get?_eq_live? rfl).trans hl
  refine underwent_run encode (sound_init resolver registered) ?_ ops _ c hget
  intro handle c hc
  simp [init, Store.get?, Store.journal, Store.empty, Generations.empty, Generations.get?] at hc

end Feed

end Changefeed
