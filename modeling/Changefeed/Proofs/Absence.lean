/-
Journals that are not to be had. The settings withhold the journals of a namespace while the cluster is too old for them,
while nothing is registered for the object, and while what is registered is disabled. Where there is no container then,
writing does nothing and everything that is asked is refused; and there will be none for as long as the settings stay so.

The settings decide about creating a container, not about using one. A container that was created before is found before
anybody looks at the settings, and it stays in use until it is destroyed.

Results:
- `Resolver.withholds_iff`: the three ways in which the settings withhold a journal;
- `asking_of_asks`: what is asked of a journal is a question to its container, or a clean-up;
- `live?_of_withheld`: no container comes to be while the settings withhold it;
- `step_settings`: the settings do not matter to a journal that is there;
- `absent_journals`: what holds while the settings withhold a journal, with a container and without.
-/
import Changefeed.Proofs.Creation

namespace Changefeed

variable {ω β : Type}

/-- the operation asks something of the journal of a key, or cleans it up -/
def Op.asks (key : JournalKey) : Op ω β → Bool
  | .newest k => k = key
  | .oldest k => k = key
  | .subscribe k => k = key
  | .checkPosition k _ => k = key
  | .shouldWait k _ => k = key
  | .readMany k _ _ => k = key
  | .cleanup k _ => k = key
  | _ => false

/-- the operation writes to the journal of a key or asks something of it -/
def Op.uses (key : JournalKey) : Op ω β → Bool
  | .write k _ _ => k = key
  | op => op.asks key

namespace Resolver

/-- the settings let a namespace have no journals -/
inductive Withholds (r : Resolver) (ns : Namespace) : Prop
  | old (h : r.version.older minJournalVersion = true)
  | unregistered (h : r.registry ns.object = none)
  | disabled (config : JournalConfig) (h : r.registry ns.object = some config) (hd : config.enabled = false)

theorem withholds_iff {r : Resolver} {ns : Namespace} : r.Withholds ns ↔ r.enabledConfig? ns = none := by
  unfold enabledConfig? config?
  constructor
  · rintro (h | h | ⟨config, h, hd⟩)
    · rw [if_pos h]
      rfl
    · rw [h]
      split <;> rfl
    · rw [h]
      split
      · rfl
      · exact Option.filter_eq_none_iff.2 fun c hc => by cases hc; simp [hd]
  · intro hnone
    split at hnone
    · next h => exact .old h
    · cases h : r.registry ns.object with
      | none => exact .unregistered h
      | some config =>
        rw [h] at hnone
        exact .disabled config h (by simpa [Option.filter_eq_none_iff] using hnone)

theorem Withholds.isEnabled {r : Resolver} {ns : Namespace} (h : r.Withholds ns) : r.isEnabled ns = false := by
  rw [Resolver.isEnabled, withholds_iff.1 h]
  rfl

/-- settings that withhold a journal admit no container of it -/
theorem Withholds.not_admits {r : Resolver} {ns : Namespace} (h : r.Withholds ns) (config : JournalConfig)
    (storage : StorageConfig) : ¬ r.Admits ns config storage := by
  intro hadmits
  cases h with
  | old h =>
    rw [(Version.not_older_iff _).2 hadmits.version] at h
    cases h
  | unregistered h =>
    rw [hadmits.resolved] at h
    cases h
  | disabled config' h hd =>
    rw [hadmits.resolved] at h
    cases h
    rw [hadmits.enabled] at hd
    cases hd

end Resolver

namespace Feed

/-- to those who write to it or ask for it, the journal of a key is not there -/
structure Absent (encode : ω → Except WireError Data) (f : Feed β) (key : JournalKey) : Prop where
  writes : ∀ now change, f.step encode (.write key now change) = (f, .ok .done)
  asks : ∀ op : Op ω β, op.asks key = true → f.step encode op = (f, .error (.notConfigured key.ns.object))

section Steps

variable {encode : ω → Except WireError Data} {f : Feed β} {key : JournalKey} {op : Op ω β}

/-! ## Asking -/

/-- what asks of a journal is a question to its container, or a clean-up -/
inductive Asking (encode : ω → Except WireError Data) (key : JournalKey) (op : Op ω β) : Prop
  | question (γ : Type) (ask : Container EventRecord → Except JournalError γ) (give : γ → Answer β)
      (hstep : ∀ f : Feed β, f.step encode op = answer give (f.query key ask))
  | cleanup (now : ℕ) (hop : op = .cleanup key now)

theorem asking_of_asks (encode : ω → Except WireError Data) (hop : op.asks key = true) : Asking encode key op := by
  cases op with
  | newest k => obtain rfl := of_decide_eq_true hop; exact .question _ _ _ fun f => rfl
  | oldest k => obtain rfl := of_decide_eq_true hop; exact .question _ _ _ fun f => rfl
  | subscribe k => obtain rfl := of_decide_eq_true hop; exact .question _ _ _ fun f => by rw [step, subscribe_eq]
  | checkPosition k s => obtain rfl := of_decide_eq_true hop; exact .question _ _ _ fun f => rfl
  | shouldWait k s => obtain rfl := of_decide_eq_true hop; exact .question _ _ _ fun f => rfl
  | readMany k s b => obtain rfl := of_decide_eq_true hop; exact .question _ _ _ fun f => rfl
  | cleanup k now => obtain rfl := of_decide_eq_true hop; exact .cleanup now rfl
  | _ => cases hop

theorem uses_cases (hop : op.uses key = true) : (∃ now change, op = .write key now change) ∨ op.asks key = true := by
  cases op with
  | write k now change =>
    obtain rfl := of_decide_eq_true hop
    exact Or.inl ⟨now, change, rfl⟩
  | _ => exact Or.inr hop

/-! ## Without a container -/

/-- where a look is refused, so is everything that is asked -/
theorem asks_refused {e : JournalError} (he : f.container key = (f, .error e)) (hop : op.asks key = true) :
    f.step encode op = (f, .error e) := by
  rcases asking_of_asks encode hop with ⟨γ, ask, give, hstep⟩ | ⟨now, rfl⟩
  · rw [hstep, query, he]
    rfl
  · simp only [step, cleanup, he, answer]

theorem absent_of_none (hr : f.registered = true) (hoff : f.resolver.Withholds key.ns)
    (hl : f.store.live? key = none) : Absent encode f key := by
  have hnone := Resolver.withholds_iff.1 hoff
  constructor
  · intro now change
    rw [step, write_absent hr hl hnone]
    rfl
  · intro op hop
    have hlook : f.container? key = (f, .ok none) := by simp [container?, hr, hl, hnone]
    exact asks_refused (by simp only [container, hlook]) hop

/-- no container comes to be while the settings withhold it -/
theorem live?_of_withheld {past : JournalKey → List EventRecord} (h : f.Sound past)
    (hoff : f.resolver.Withholds key.ns) (hop : op.gated = true) (hl : f.store.live? key = none) :
    (f.step encode op).1.store.live? key = none := by
  cases hlive : (f.step encode op).1.store.live? key with
  | none => rfl
  | some c =>
    obtain ⟨config, hadmits⟩ := (origin_of_new h hop hl hlive).admitted
    exact absurd hadmits (hoff.not_admits config c.config)

/-- **A journal that is absent stays so for as long as the settings withhold it.** -/
theorem absent_run {past : JournalKey → List EventRecord} (h : f.Sound past) (hr : f.registered = true)
    (hl : f.store.live? key = none) {ops : List (Op ω β)} (hops : ∀ op ∈ ops, op.gated = true)
    (hoff : ∀ mid, mid <+: ops → (f.run encode mid).1.resolver.Withholds key.ns) :
    Absent encode (f.run encode ops).1 key := by
  induction ops generalizing f past with
  | nil => exact absent_of_none hr (hoff [] List.nil_prefix) hl
  | cons op ops ih =>
    apply ih (sound_step encode h op) (registered_step encode h.keyed hr op)
    · exact live?_of_withheld h (hoff [] List.nil_prefix) (hops op List.mem_cons_self) hl
    · intro op' hop'
      exact hops op' (List.mem_cons_of_mem op hop')
    · intro mid hmid
      exact hoff (op :: mid) (List.cons_prefix_cons.2 ⟨rfl, hmid⟩)

/-! ## With a container -/

/-- **The settings do not matter to a journal that is there.** Whatever they are, it is used in the same way. -/
theorem step_settings (hr : f.registered = true) {c : Container EventRecord} (hc : f.store.live? key = some c)
    (hop : op.uses key = true) (resolver : Resolver) :
    { f with resolver }.step encode op = ({ (f.step encode op).1 with resolver }, (f.step encode op).2) := by
  have hlook := container?_live hr hc
  have hlook' : { f with resolver }.container? key = ({ f with resolver }, .ok (some c)) :=
    container?_live (show { f with resolver }.registered = true from hr) hc
  have hcontainer : f.container key = (f, .ok c) := by simp only [container, hlook]
  have hcontainer' : { f with resolver }.container key = ({ f with resolver }, .ok c) := by
    simp only [container, hlook']
  rcases uses_cases hop with ⟨now, change, rfl⟩ | hasks
  · simp only [step, write, hlook, hlook']
    cases change.encode encode encode <;> rfl
  · rcases asking_of_asks encode hasks with ⟨γ, ask, give, hstep⟩ | ⟨now, rfl⟩
    · rw [hstep, hstep, query_found hlook, query_found hlook']
      cases ask c <;> rfl
    · simp only [step, cleanup, hcontainer, hcontainer', answer]

/-- a journal that is there is not absent -/
theorem not_absent_of_live (hr : f.registered = true) {c : Container EventRecord} (hc : f.store.live? key = some c) :
    ¬ Absent encode f key := by
  intro habsent
  have hasks := habsent.asks (.newest key) (decide_eq_true rfl)
  rw [step, newest, query_live hr hc] at hasks
  cases hasks

end Steps

/-- **Absent journals.** After any run, if the store service is there and the settings withhold the journals of a
namespace, then the namespace is said to have none, and of every partition:
- if it has no container, writes do nothing and everything that is asked is refused, now and for as long as the settings
  withhold the journal and none is created behind them;
- if it has one, it is in use as under any other settings. -/
theorem absent_journals (encode : ω → Except WireError Data) (resolver : Resolver) (registered : Bool)
    (ops : List (Op ω β)) (key : JournalKey) :
    let f : Feed β := (run encode (init resolver registered) ops).1
    f.registered = true → f.resolver.Withholds key.ns →
    f.step encode (.hasJournal key.ns : Op ω β) = (f, .ok (.flag false)) ∧
    (f.store.live? key = none → Absent encode f key ∧
      ∀ more : List (Op ω β), (∀ op ∈ more, op.gated = true) →
        (∀ mid, mid <+: more → (f.run encode mid).1.resolver.Withholds key.ns) →
        Absent encode (f.run encode more).1 key) ∧
    ∀ c, f.store.live? key = some c → ¬ Absent encode f key ∧
      ∀ op : Op ω β, op.uses key = true → ∀ resolver',
        { f with resolver := resolver' }.step encode op =
          ({ (f.step encode op).1 with resolver := resolver' }, (f.step encode op).2) := by
  intro f hr hoff
  have h : f.Sound _ := sound_run encode (sound_init resolver registered) ops
  refine ⟨?_, ?_, ?_⟩
  · rw [step, hoff.isEnabled]
  · intro hl
    refine ⟨absent_of_none hr hoff hl, ?_⟩
    intro more hmore hwithheld
    exact absent_run h hr hl hmore hwithheld
  · intro c hc
    exact ⟨not_absent_of_live hr hc, fun op hop resolver' => step_settings hr hc hop resolver'⟩

/-- an order, and then too old a version -/
def downgrade : List (Op Data Data) := [addOrder 0, .setVersion ⟨3, 8⟩]

/-- the stocks are absent under the old version, and when the version is new again but nothing is registered; the orders, which
are said to be withheld as well, are not: a second order is written, and told of -/
theorem absent_journals_downgrade :
    let f := (run .ok (init smallResolver true : Feed Data) downgrade).1
    let more : List (Op Data Data) := [.setRegistry fun _ => none, .write stocksKey 0 (.added [1] [1]), .setVersion ⟨3, 9⟩]
    f.registered = true ∧ f.resolver.Withholds stocksKey.ns ∧ f.store.live? stocksKey = none ∧ Absent .ok f stocksKey ∧
      (∀ mid, mid <+: more → (f.run .ok mid).1.resolver.Withholds stocksKey.ns) ∧
      Absent .ok (f.run .ok more).1 stocksKey ∧
      f.step .ok (.hasJournal ordersKey.ns : Op Data Data) = (f, .ok (.flag false)) ∧ ¬ Absent (ω := Data) .ok f ordersKey ∧
      (f.run .ok [addOrder 1, .newest ordersKey]).2 = [.ok .done, .ok (.number 1)] := by
  intro f more
  have hoff : f.resolver.Withholds stocksKey.ns := .old (by decide)
  have hl : f.store.live? stocksKey = none := rfl
  obtain ⟨-, habsent, -⟩ := absent_journals .ok smallResolver true downgrade stocksKey rfl hoff
  obtain ⟨hnow, hlater⟩ := habsent hl
  have hwithheld : ∀ mid, mid <+: more → (f.run .ok mid).1.resolver.Withholds stocksKey.ns := by
    intro mid hmid
    have hmid := List.mem_inits mid more |>.2 hmid
    simp only [more, List.inits, List.map_cons, List.map_nil, List.mem_cons, List.not_mem_nil, or_false] at hmid
    rcases hmid with rfl | rfl | rfl | rfl
    · exact hoff
    · exact .unregistered rfl
    · exact .unregistered rfl
    · exact .unregistered rfl
  obtain ⟨hflag, -, hused⟩ := absent_journals .ok smallResolver true downgrade ordersKey rfl (.old (by decide))
  obtain ⟨c, hc⟩ := Option.isSome_iff_exists.1 (show (f.store.live? ordersKey).isSome = true from rfl)
  obtain ⟨hthere, -⟩ := hused c hc
  exact ⟨rfl, hoff, hl, hnow, hwithheld, hlater more (by decide) hwithheld, hflag, hthere, rfl⟩

end Feed

end Changefeed
