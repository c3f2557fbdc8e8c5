/-
How much is retained. What a user asks for is shared out among the partitions; every container is created with the share of
its partition, has room for it and no more, and never holds more than it has room for. So the containers of a namespace,
however often they were torn down and created again, together hold no more than what was asked for.

Results:
- `Records.size_le`: a container holds no more than it has room for;
- `Rooms.step`, `rooms_run`: every container of a namespace has room for its share;
- `retention_bounded`: what one container retains, and all containers of a namespace together.
-/
import Changefeed.Proofs.Ledger

namespace Changefeed

variable {ω β : Type}

namespace Container

variable {α : Type}

theorem Records.size_le {c : Container α} {past : List α} (h : c.Records past) : c.size ≤ c.ring.capacity := by
  obtain ⟨l, hl, -⟩ := h
  have hfits := hl.fits
  rw [size, hl.size, Int.toNat_natCast]
  omega

theorem capacity_create {key : JournalKey} {config : StorageConfig} {c : Container α} (h : create key config = .ok c) :
    c.ring.capacity = config.capacity.toNat := by
  unfold create at h
  split at h
  · cases h
  · cases h
    exact RingBuffer.capacity_empty _

theorem capacity_cleanup (c : Container α) (now : ℕ) : (c.cleanup now).1.ring.capacity = c.ring.capacity := by
  unfold cleanup
  split
  · exact RingBuffer.capacity_evictExpired c.ring now
  · rfl

end Container

namespace Feed

/-- a use gives a container no more room -/
theorem Used.capacity {c c' : Container EventRecord} {a : Option EventRecord} (h : Used c a c') :
    c'.ring.capacity = c.ring.capacity := by
  cases h with
  | seen => rfl
  | cleaned now => exact Container.capacity_cleanup c now
  | grown a now => exact RingBuffer.capacity_add c.ring a (c.expiry now)

/-- the container keeps what it is given, as far as it has room; on a namespace it has room for a share -/
structure Roomy (ns : Namespace) (share : ℕ) (c : Container EventRecord) : Prop where
  records : ∃ past, c.Records past
  capacity : c.key.ns = ns → c.ring.capacity = share

theorem Roomy.used {ns : Namespace} {share : ℕ} {c c' : Container EventRecord} {a : Option EventRecord}
    (h : Roomy ns share c) (hu : Used c a c') : Roomy ns share c' := by
  obtain ⟨past, hpast⟩ := h.records
  refine ⟨⟨past ++ a.toList, hu.records hpast⟩, fun hns => ?_⟩
  rw [hu.capacity]
  exact h.capacity (hu.key ▸ hns)

/-- the settings give every partition of the namespace this share -/
def Shares (r : Resolver) (ns : Namespace) (share : ℕ) : Prop :=
  ∀ config, r.enabledConfig? ns = some config → config.capacity.toNat / r.partitions.toNat = share

/-- every container, live or torn down, has the room that it should have -/
def Rooms (f : Feed β) (ns : Namespace) (share : ℕ) : Prop := ∀ h c, f.store.get? h = some c → Roomy ns share c

section Steps

variable {encode : ω → Except WireError Data} {f : Feed β} {ns : Namespace} {share : ℕ}

/-- an operation creates containers with the share that the settings give -/
theorem Rooms.step (hkeyed : f.store.Keyed) (h : f.Rooms ns share) (hshare : Shares f.resolver ns share) {op : Op ω β}
    (hop : op.gated = true) : (f.step encode op).1.Rooms ns share := by
  have hnew : ∀ key storage c, op.Gives f key storage → Container.create key storage = .ok c → Roomy ns share c := by
    intro key storage c hgives hc
    refine ⟨⟨[], Container.records_create hc⟩, fun hns => ?_⟩
    rw [Container.key_create hc] at hns
    rcases hgives with ⟨config, hadmits⟩ | rfl
    · subst hns
      rw [Container.capacity_create hc, hadmits.share]
      exact hshare config hadmits.given.1
    · cases hop
  exact (step_moves encode hkeyed op).every hnew (fun c a c' hu hc => hc.used hu) h

theorem rooms_run {past : JournalKey → List EventRecord} (hsound : f.Sound past) (h : f.Rooms ns share)
    {ops : List (Op ω β)} (hops : ∀ op ∈ ops, op.gated = true)
    (hshare : ∀ mid, mid <+: ops → Shares (f.run encode mid).1.resolver ns share) : (f.run encode ops).1.Rooms ns share := by
  induction ops generalizing f past with
  | nil => exact h
  | cons op ops ih =>
    apply ih (sound_step encode hsound op)
    · exact h.step hsound.keyed (hshare [] (List.nil_prefix)) (hops op List.mem_cons_self)
    · exact fun op' hop' => hops op' (List.mem_cons_of_mem op hop')
    · intro mid hmid
      exact hshare (op :: mid) (List.cons_prefix_cons.2 ⟨rfl, hmid⟩)

end Steps

/-- **What is retained is bounded.** Let the number of partitions never change in a run of operations on journals, and let the
settings of a namespace ask for the same capacity whenever they enable its journals. Whatever was written, cleaned up, torn
down and created again, then all containers of the namespace together retain no more records than that, and each container
that there is or was no more than its share, rounded down. -/
theorem retention_bounded (encode : ω → Except WireError Data) (resolver : Resolver) (registered : Bool)
    (ops : List (Op ω β)) (hops : ∀ op ∈ ops, op.gated = true) (ns : Namespace) (partitions capacity : UInt32)
    (hpartitions : ∀ mid, mid <+: ops →
      ((init resolver registered : Feed β).run encode mid).1.resolver.partitions = partitions)
    (hcapacity : ∀ mid, mid <+: ops → ∀ config,
      ((init resolver registered : Feed β).run encode mid).1.resolver.enabledConfig? ns = some config →
        config.capacity = capacity) :
    let f := ((init resolver registered : Feed β).run encode ops).1
    ∑ part ∈ Finset.range partitions.toNat, ((f.store.live? ⟨ns, part⟩).map Container.size).getD 0 ≤ capacity.toNat ∧
      ∀ h c, f.store.get? h = some c → h.key.ns = ns → c.size ≤ capacity.toNat / partitions.toNat := by
  intro f
  have hsound : f.Sound _ := sound_run encode (sound_init resolver registered) ops
  have hrooms : f.Rooms ns (capacity.toNat / partitions.toNat) := by
    refine rooms_run (sound_init resolver registered) ?_ hops ?_
    · intro h c hc
      simp [init, Store.get?, Store.journal, Store.empty, Generations.empty, Generations.get?] at hc
    · intro mid hmid config hconfig
      rw [hpartitions mid hmid, hcapacity mid hmid config hconfig]
  have heach : ∀ h c, f.store.get? h = some c → h.key.ns = ns → c.size ≤ capacity.toNat / partitions.toNat := by
    intro h c hc hns
    obtain ⟨past, hpast⟩ := (hrooms h c hc).records
    rw [← (hrooms h c hc).capacity (by rw [hsound.keyed h.key h.generation c hc, hns])]
    exact hpast.size_le
  refine ⟨?_, heach⟩
  have hlive : ∀ part ∈ Finset.range partitions.toNat,
      ((f.store.live? ⟨ns, part⟩).map Container.size).getD 0 ≤ capacity.toNat / partitions.toNat := by
    intro part _
    cases hl : f.store.live? ⟨ns, part⟩ with
    | none => exact Nat.zero_le _
    | some c =>
      exact heach ⟨⟨ns, part⟩, (f.store.journal ⟨ns, part⟩).closed.length⟩ c ((Store.get?_eq_live? rfl).trans hl) rfl
  calc ∑ part ∈ Finset.range partitions.toNat, ((f.store.live? ⟨ns, part⟩).map Container.size).getD 0
      ≤ (Finset.range partitions.toNat).card • (capacity.toNat / partitions.toNat) := Finset.sum_le_card_nsmul _ _ _ hlive
    _ = partitions.toNat * (capacity.toNat / partitions.toNat) := by rw [Finset.card_range, smul_eq_mul]
    _ ≤ capacity.toNat := Nat.mul_div_le _ _

/-- room for five orders on two partitions, so for two on each, and for a second -/
def fiveOrders : Resolver := ⟨fun _ => some ⟨true, 5, 1⟩, minJournalVersion, 2⟩

/-- a write to one of the two partitions -/
def addOrderOn (part : ℕ) (n : UInt8) : Op Data Data := .write ⟨ordersKey.ns, part⟩ 0 (.added [n] [n])

/-- The first partition is torn down when it is full, filled again and cleaned up when everything in it has expired. Then the
journal is switched off, for which another capacity is given, and on again; the second partition begins only then. -/
def fillOrders : List (Op Data Data) :=
  [addOrderOn 0 0, addOrderOn 0 1, addOrderOn 0 2, .destroy ⟨ordersKey.ns, 0⟩, addOrderOn 0 3, addOrderOn 0 4,
    addOrderOn 0 5, .cleanup ⟨ordersKey.ns, 0⟩ 2000, .setRegistry fun _ => some ⟨false, 9, 0⟩, addOrderOn 0 6,
    addOrderOn 1 0, .setRegistry fun _ => some ⟨true, 5, 1⟩, addOrderOn 1 1, addOrderOn 1 2, addOrderOn 1 3]

/-- three orders are retained; the container that was torn down has been full ever since -/
theorem retention_bounded_orders :
    let f := (run .ok (init fiveOrders true : Feed Data) fillOrders).1
    (∑ part ∈ Finset.range 2, ((f.store.live? ⟨ordersKey.ns, part⟩).map Container.size).getD 0 = 3) ∧
    ((f.store.get? ⟨⟨ordersKey.ns, 0⟩, 0⟩).map Container.size = some 2) ∧
    (∑ part ∈ Finset.range 2, ((f.store.live? ⟨ordersKey.ns, part⟩).map Container.size).getD 0 ≤ 5) ∧
    ∀ h c, f.store.get? h = some c → h.key.ns = ordersKey.ns → c.size ≤ 2 := by
  have hinits : ∀ mid ∈ fillOrders.inits, ((init fiveOrders true : Feed Data).run .ok mid).1.resolver.partitions = 2 ∧
      (((init fiveOrders true : Feed Data).run .ok mid).1.resolver.enabledConfig? ordersKey.ns).all
        (fun config => config.capacity = 5) = true := by decide +kernel
  obtain ⟨htotal, heach⟩ := retention_bounded .ok fiveOrders true fillOrders (by decide) ordersKey.ns 2 5
    (fun mid hmid => (hinits mid ((List.mem_inits mid fillOrders).2 hmid)).1)
    (fun mid hmid config hconfig => by
      have hall := (hinits mid ((List.mem_inits mid fillOrders).2 hmid)).2
      rw [hconfig] at hall
      simpa using hall)
  exact ⟨by decide +kernel, by decide +kernel, htotal, heach⟩

end Feed

end Changefeed
