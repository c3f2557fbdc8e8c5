/-
Reference counts of the wait registry. A channel is kept under its key only while somebody holds it, and it leaves the
key for good when the last holder releases it or when the key is cancelled. So a registration is always in one of two
states: its channel is the current one of its key, or its channel was cancelled.

`Accounts r n` says that the registry's counts are the numbers `n` of live registrations, whoever keeps them.

Results:
- `accounts_register`, `accounts_release`, `accounts_wake`, `accounts_cancel`: every operation keeps the accounts;
- `wakeups_wake`, `wakeups_cancel`, `isCancelled_cancel`: what waking and cancelling do to a registration;
- `wakeups_register`, `wakeups_release`, `isCancelled_register`, `isCancelled_release`: the registrations of others come
  and go unnoticed.
-/
import Mathlib.Tactic
import Changefeed.WaitRegistry

namespace Changefeed

namespace WaitRegistry

variable {r r' : WaitRegistry} {w : Waiter} {key : JournalKey}

/-- the waiter's channel is the one that its key has now -/
def Current (r : WaitRegistry) (w : Waiter) : Prop := (r.line w.key).openId? = some w.channel

instance (r : WaitRegistry) (w : Waiter) : Decidable (r.Current w) := by
  unfold Current; infer_instance

theorem current_iff :
    r.Current w ↔ (r.line w.key).opened.isSome = true ∧ w.channel = (r.line w.key).closed.length := by
  unfold Current Generations.openId?
  cases (r.line w.key).opened with
  | none => simp
  | some c => simp [eq_comm]

theorem channel?_current (h : r.Current w) : r.channel? w = (r.line w.key).opened := Generations.get?_openId? h

/-- a key has at most one current channel -/
theorem current_unique {w' : Waiter} (h : r.Current w) (h' : r.Current w') (hk : w.key = w'.key) : w = w' := by
  have hn := (current_iff.1 h).2
  have hn' := (current_iff.1 h').2
  rw [← hk, ← hn] at hn'
  cases w; cases w'
  simp_all

theorem wakeups_eq (r : WaitRegistry) (w : Waiter) : r.wakeups w = (r.channel? w).elim 0 Channel.wakeups := by
  unfold wakeups
  cases r.channel? w <;> rfl

theorem isCancelled_eq (r : WaitRegistry) (w : Waiter) : r.isCancelled w = (r.channel? w).any Channel.cancelled := by
  unfold isCancelled
  cases r.channel? w <;> rfl

/-- what is known of a registration depends on the channels of its key only -/
structure SameLine (r r' : WaitRegistry) (key : JournalKey) : Prop where
  line : r'.line key = r.line key

theorem SameLine.channel? (h : SameLine r r' w.key) : r'.channel? w = r.channel? w := by
  simp only [WaitRegistry.channel?, h.line]

theorem SameLine.current (h : SameLine r r' w.key) : r'.Current w ↔ r.Current w := by
  simp only [Current, h.line]

theorem sameLine_register (h : w.key ≠ key) : SameLine r (r.register key).1 w.key := ⟨line_set_of_ne r h _⟩

theorem sameLine_release {w' : Waiter} (h : w'.key ≠ w.key) : SameLine r (r.release w) w'.key := ⟨line_set_of_ne r h _⟩

theorem sameLine_wake (h : w.key ≠ key) : SameLine r (r.wake key) w.key := by
  unfold wake
  split
  · exact ⟨rfl⟩
  · exact ⟨line_set_of_ne r h _⟩

theorem sameLine_cancel (h : w.key ≠ key) : SameLine r (r.cancel key) w.key := by
  unfold cancel
  split
  · exact ⟨rfl⟩
  · exact ⟨line_set_of_ne r h _⟩

/-! ## Registering and releasing -/

theorem channel?_register_of_ne (h : w ≠ (r.register key).2) : (r.register key).1.channel? w = r.channel? w := by
  by_cases hk : w.key = key
  · have hn : w.channel ≠ (r.line key).closed.length := by
      intro hn
      apply h
      cases w
      simp_all [register]
    cases ho : (r.line key).opened <;> simp [channel?, register, ho, hk, Generations.get?, Generations.push, hn]
  · exact (sameLine_register hk).channel?

/-- registering a waiter adds a holder to the channel of its key, or opens one -/
theorem channel?_register_self (r : WaitRegistry) (key : JournalKey) :
    (r.register key).1.channel? (r.register key).2 =
      some (match r.channel? (r.register key).2 with
        | some c => { c with holders := c.holders + 1 }
        | none => ⟨1, 0, false⟩) := by
  cases ho : (r.line key).opened <;> simp [channel?, register, ho, Generations.get?, Generations.push]

theorem current_register (r : WaitRegistry) (key : JournalKey) : (r.register key).1.Current (r.register key).2 := by
  cases ho : (r.line key).opened <;> simp [current_iff, register, ho, Generations.push]

theorem current_register_of (h : r.Current w) (key : JournalKey) : (r.register key).1.Current w := by
  by_cases hk : w.key = key
  · have hw : w = (r.register key).2 := by
      have hn := (current_iff.1 h).2
      cases w
      simp_all [register]
    exact hw ▸ current_register r key
  · exact (sameLine_register hk).current.2 h

theorem wakeups_register (r : WaitRegistry) (key : JournalKey) (w : Waiter) :
    (r.register key).1.wakeups w = r.wakeups w := by
  rw [wakeups_eq, wakeups_eq]
  by_cases h : w = (r.register key).2
  · rw [h, channel?_register_self]
    cases r.channel? (r.register key).2 <;> rfl
  · rw [channel?_register_of_ne h]

theorem isCancelled_register (r : WaitRegistry) (key : JournalKey) (w : Waiter) :
    (r.register key).1.isCancelled w = r.isCancelled w := by
  rw [isCancelled_eq, isCancelled_eq]
  by_cases h : w = (r.register key).2
  · rw [h, channel?_register_self]
    cases r.channel? (r.register key).2 <;> rfl
  · rw [channel?_register_of_ne h]

/-- what the channels of a key are once one of its waiters is gone -/
theorem line_release (r : WaitRegistry) (w : Waiter) :
    let g := (r.line w.key).modify w.channel fun c => { c with holders := c.holders - 1 }
    (r.release w).line w.key =
      if g.closed.length = w.channel ∧ (g.opened.any fun c => c.holders = 0) = true then g.close id else g := by
  intro g
  have hline : (r.release w).line w.key = match g.opened with
      | some c => if g.closed.length = w.channel ∧ c.holders = 0 then g.close id else g
      | none => g := line_set r w.key _
  rw [hline]
  cases g.opened with
  | none => simp
  | some c => simp

theorem get?_close_id {α : Type} (g : Generations α) (n : ℕ) : (g.close id).get? n = g.get? n := by
  rw [Generations.get?_close, Option.map_id, id]
  split
  · next h => rw [h, Generations.get?, if_pos rfl]
  · rfl

/-- releasing a waiter takes a holder from its channel and leaves every other channel as it is -/
theorem channel?_release (r : WaitRegistry) (w w' : Waiter) :
    (r.release w).channel? w' =
      if w' = w then (r.channel? w).map fun c => { c with holders := c.holders - 1 } else r.channel? w' := by
  by_cases hk : w'.key = w.key
  · have hget : (r.release w).channel? w' =
        ((r.line w.key).modify w.channel fun c => { c with holders := c.holders - 1 }).get? w'.channel := by
      rw [channel?, hk, line_release]
      split
      · exact get?_close_id _ _
      · rfl
    rw [hget, Generations.get?_modify]
    by_cases hn : w'.channel = w.channel
    · have hw : w' = w := by cases w; cases w'; simp_all
      rw [if_pos hn, if_pos hw, channel?]
    · have hw : w' ≠ w := fun h => hn (congrArg Waiter.channel h)
      rw [if_neg hn, if_neg hw, channel?, hk]
  · have hw : w' ≠ w := fun h => hk (congrArg Waiter.key h)
    rw [if_neg hw, (sameLine_release hk).channel?]

theorem wakeups_release (r : WaitRegistry) (w w' : Waiter) : (r.release w).wakeups w' = r.wakeups w' := by
  rw [wakeups_eq, wakeups_eq, channel?_release]
  split
  · next h => rw [h]; cases r.channel? w <;> rfl
  · rfl

theorem isCancelled_release (r : WaitRegistry) (w w' : Waiter) : (r.release w).isCancelled w' = r.isCancelled w' := by
  rw [isCancelled_eq, isCancelled_eq, channel?_release]
  split
  · next h => rw [h]; cases r.channel? w <;> rfl
  · rfl

/-- a current channel stays current until its last holder is gone -/
theorem current_release {c : Channel} {w : Waiter} (h : r.channel? w = some c) (w' : Waiter) :
    (r.release w).Current w' ↔ r.Current w' ∧ ¬ (w' = w ∧ c.holders ≤ 1) := by
  by_cases hk : w'.key = w.key
  · have hline := line_release r w
    by_cases hn : w.channel = (r.line w.key).closed.length
    · have ho : (r.line w.key).opened = some c := by rw [← h, channel?, Generations.get?, if_pos hn]
      simp only [Generations.modify, hn, if_true, ho, Option.map_some, Option.any_some, true_and] at hline
      have heq : w' = w ↔ w'.channel = w.channel := by cases w; cases w'; simp_all
      rw [current_iff, current_iff, hk, hline, ho, heq, hn]
      by_cases hz : c.holders ≤ 1
      · simp [Generations.close, hz, show c.holders - 1 = 0 by omega]
      · simp [hz, show ¬ c.holders - 1 = 0 by omega]
    · simp only [Generations.modify, hn, if_false, List.length_modify, Ne.symm hn, false_and] at hline
      have hne : w' = w → w'.channel ≠ (r.line w.key).closed.length := fun h => h ▸ hn
      rw [current_iff, current_iff, hk, hline, List.length_modify]
      tauto
  · have hw : w' ≠ w := fun h => hk (congrArg Waiter.key h)
    rw [(sameLine_release hk).current]
    simp [hw]

/-! ## Waking and cancelling -/

theorem current_wake (r : WaitRegistry) (key : JournalKey) (w : Waiter) : (r.wake key).Current w ↔ r.Current w := by
  by_cases hk : w.key = key
  · subst hk
    unfold wake
    split
    · rfl
    · next c hc => simp [current_iff, hc]
  · exact (sameLine_wake hk).current

theorem channel?_wake (r : WaitRegistry) (key : JournalKey) (w : Waiter) :
    (r.wake key).channel? w = if w.key = key ∧ r.Current w then (r.channel? w).map Channel.wake else r.channel? w := by
  by_cases hk : w.key = key
  · subst hk
    unfold wake
    split
    · next hc => simp [current_iff, hc]
    · next c hc =>
      by_cases hn : w.channel = (r.line w.key).closed.length
      · simp [current_iff, channel?, hc, hn, Generations.get?]
      · simp [current_iff, channel?, hn, Generations.get?]
  · rw [if_neg fun h => hk h.1]
    exact channel?_wake_of_ne r hk

/-- waking a key is counted by the waiters on its current channel, and by nobody else -/
theorem wakeups_wake (r : WaitRegistry) (key : JournalKey) (w : Waiter) :
    (r.wake key).wakeups w = r.wakeups w + if w.key = key ∧ r.Current w then 1 else 0 := by
  rw [wakeups_eq, wakeups_eq, channel?_wake]
  split
  · next h =>
    obtain ⟨c, hc⟩ := Option.isSome_iff_exists.1 (current_iff.1 h.2).1
    rw [channel?_current h.2, hc]
    rfl
  · rfl

theorem isCancelled_wake (r : WaitRegistry) (key : JournalKey) (w : Waiter) :
    (r.wake key).isCancelled w = r.isCancelled w := by
  rw [isCancelled_eq, isCancelled_eq, channel?_wake]
  split
  · cases r.channel? w <;> rfl
  · rfl

theorem channel?_cancel (r : WaitRegistry) (key : JournalKey) (w : Waiter) :
    (r.cancel key).channel? w = if w.key = key ∧ r.Current w
      then (r.channel? w).map fun c => { c.wake with cancelled := true } else r.channel? w := by
  by_cases hk : w.key = key
  · subst hk
    unfold cancel
    split
    · next hc => simp [current_iff, hc]
    · next c hc =>
      rw [channel?, line_set, Generations.get?_close]
      by_cases hn : w.channel = (r.line w.key).closed.length
      · simp [current_iff, channel?, hc, hn, Generations.get?]
      · simp [current_iff, channel?, hn]
  · rw [if_neg fun h => hk h.1]
    exact (sameLine_cancel hk).channel?

/-- no channel is current under a key that was just cancelled -/
theorem current_cancel (r : WaitRegistry) (key : JournalKey) (w : Waiter) :
    (r.cancel key).Current w ↔ r.Current w ∧ w.key ≠ key := by
  by_cases hk : w.key = key
  · subst hk
    unfold cancel
    split
    · next hc => simp [current_iff, hc]
    · simp [current_iff]
  · rw [(sameLine_cancel hk).current]
    simp [hk]

theorem wakeups_cancel (r : WaitRegistry) (key : JournalKey) (w : Waiter) :
    (r.cancel key).wakeups w = r.wakeups w + if w.key = key ∧ r.Current w then 1 else 0 := by
  rw [wakeups_eq, wakeups_eq, channel?_cancel]
  split
  · next h =>
    obtain ⟨c, hc⟩ := Option.isSome_iff_exists.1 (current_iff.1 h.2).1
    rw [channel?_current h.2, hc]
    rfl
  · rfl

/-- cancelling a key cancels the waiters on its current channel, and nobody else -/
theorem isCancelled_cancel (r : WaitRegistry) (key : JournalKey) (w : Waiter) :
    (r.cancel key).isCancelled w = (r.isCancelled w || decide (w.key = key ∧ r.Current w)) := by
  rw [isCancelled_eq, isCancelled_eq, channel?_cancel]
  by_cases h : w.key = key ∧ r.Current w
  · obtain ⟨c, hc⟩ := Option.isSome_iff_exists.1 (current_iff.1 h.2).1
    rw [if_pos h, channel?_current h.2, hc]
    simp [h]
  · rw [if_neg h]
    simp [h]

/-! ## The accounts -/

/-- the registry counts `n w` live registrations of each waiter's channel: a current channel has holders and is not
cancelled, and a channel that is still held is current unless it was cancelled -/
structure Accounts (r : WaitRegistry) (n : Waiter → ℕ) : Prop where
  current : ∀ w c, r.Current w → r.channel? w = some c → c.cancelled = false ∧ c.holders = n w ∧ 0 < n w
  held : ∀ w, 0 < n w → r.Current w ∨ r.isCancelled w = true

theorem accounts_empty : Accounts empty fun _ => 0 := by
  refine ⟨fun w c h => ?_, fun w h => absurd h (lt_irrefl 0)⟩
  simp [current_iff, empty, line, Generations.empty] at h

theorem Accounts.not_cancelled {n : Waiter → ℕ} (h : r.Accounts n) (hw : r.Current w) : r.isCancelled w = false := by
  obtain ⟨c, hc⟩ := Option.isSome_iff_exists.1 (current_iff.1 hw).1
  rw [← channel?_current hw] at hc
  rw [isCancelled_eq, hc]
  exact (h.current w c hw hc).1

theorem Accounts.current_of_held {n : Waiter → ℕ} (h : r.Accounts n) (hw : 0 < n w) (hc : r.isCancelled w = false) :
    r.Current w := by
  rcases h.held w hw with h | h
  · exact h
  · rw [hc] at h
    cases h

theorem channel?_of_held {n : Waiter → ℕ} (h : r.Accounts n) (hw : 0 < n w) : ∃ c, r.channel? w = some c := by
  rcases h.held w hw with hc | hc
  · rw [channel?_current hc]
    exact Option.isSome_iff_exists.1 (current_iff.1 hc).1
  · rw [isCancelled_eq, Option.any_eq_true] at hc
    obtain ⟨c, hc, -⟩ := hc
    exact ⟨c, hc⟩

/-- a key without a channel has no live registration on the channel that comes next -/
theorem Accounts.not_held {n : Waiter → ℕ} (h : r.Accounts n) (hw : r.channel? w = none) : n w = 0 := by
  by_contra h0
  obtain ⟨c, hc⟩ := channel?_of_held h (Nat.pos_of_ne_zero h0)
  rw [hw] at hc
  cases hc

theorem current_register_iff (h : w ≠ (r.register key).2) : (r.register key).1.Current w ↔ r.Current w := by
  constructor
  · intro hc
    by_cases hk : w.key = key
    · exact absurd (current_unique hc (current_register r key) hk) h
    · exact (sameLine_register hk).current.1 hc
  · intro hc
    exact current_register_of hc key

theorem current_of_channel?_register {c : Channel} (h : r.channel? (r.register key).2 = some c) :
    r.Current (r.register key).2 := by
  have ho : (r.line key).opened = some c := by simpa [channel?, register, Generations.get?] using h
  simp [current_iff, register, ho]

theorem accounts_register {n : Waiter → ℕ} (h : r.Accounts n) (key : JournalKey) :
    (r.register key).1.Accounts fun w => n w + if w = (r.register key).2 then 1 else 0 := by
  constructor
  · intro w c hcur hchan
    by_cases hw : w = (r.register key).2
    · subst hw
      rw [channel?_register_self] at hchan
      cases hold : r.channel? (r.register key).2 with
      | none =>
        rw [hold] at hchan
        cases hchan
        rw [h.not_held hold, if_pos rfl]
        exact ⟨rfl, rfl, Nat.one_pos⟩
      | some d =>
        obtain ⟨h1, h2, h3⟩ := h.current _ d (current_of_channel?_register hold) hold
        rw [hold] at hchan
        cases hchan
        rw [if_pos rfl]
        exact ⟨h1, by simp only [h2], Nat.succ_pos _⟩
    · rw [channel?_register_of_ne hw] at hchan
      rw [if_neg hw]
      exact h.current w c ((current_register_iff hw).1 hcur) hchan
  · intro w hpos
    by_cases hw : w = (r.register key).2
    · exact Or.inl (hw ▸ current_register r key)
    · rw [if_neg hw] at hpos
      exact (h.held w hpos).imp (fun hc => current_register_of hc key) fun hc => by rw [isCancelled_register]; exact hc

theorem accounts_release {n : Waiter → ℕ} (h : r.Accounts n) {w : Waiter} (hw : 0 < n w) :
    (r.release w).Accounts fun w' => n w' - if w' = w then 1 else 0 := by
  obtain ⟨c, hc⟩ := channel?_of_held h hw
  constructor
  · intro w' d hcur hchan
    obtain ⟨hold, hlast⟩ := (current_release hc w').1 hcur
    rw [channel?_release] at hchan
    by_cases hww : w' = w
    · subst hww
      obtain ⟨h1, h2, h3⟩ := h.current _ c hold hc
      have hmore : ¬ c.holders ≤ 1 := fun hz => hlast ⟨rfl, hz⟩
      rw [if_pos rfl, hc] at hchan
      cases hchan
      rw [if_pos rfl]
      exact ⟨h1, by simp only [h2], by omega⟩
    · rw [if_neg hww] at hchan
      rw [if_neg hww]
      exact h.current w' d hold hchan
  · intro w' hpos
    rcases h.held w' (by omega) with hcur | hcan
    · refine Or.inl ((current_release hc w').2 ⟨hcur, ?_⟩)
      rintro ⟨rfl, hz⟩
      -- the last holder was the one that is released
      have := (h.current _ c hcur hc).2.1
      rw [if_pos rfl] at hpos
      omega
    · exact Or.inr (by rw [isCancelled_release]; exact hcan)

theorem accounts_wake {n : Waiter → ℕ} (h : r.Accounts n) (key : JournalKey) : (r.wake key).Accounts n := by
  constructor
  · intro w c hcur hchan
    have hcur := (current_wake r key w).1 hcur
    rw [channel?_wake] at hchan
    split at hchan
    · obtain ⟨d, hd, rfl⟩ := Option.map_eq_some_iff.1 hchan
      exact h.current w d hcur hd
    · exact h.current w c hcur hchan
  · intro w hpos
    exact (h.held w hpos).imp (current_wake r key w).2 fun hc => by rw [isCancelled_wake]; exact hc

theorem accounts_cancel {n : Waiter → ℕ} (h : r.Accounts n) (key : JournalKey) : (r.cancel key).Accounts n := by
  constructor
  · intro w c hcur hchan
    obtain ⟨hcur, hk⟩ := (current_cancel r key w).1 hcur
    rw [channel?_cancel, if_neg fun h => hk h.1] at hchan
    exact h.current w c hcur hchan
  · intro w hpos
    rcases h.held w hpos with hcur | hcan
    · by_cases hk : w.key = key
      · exact Or.inr (by rw [isCancelled_cancel]; simp [hk, hcur])
      · exact Or.inl ((current_cancel r key w).2 ⟨hcur, hk⟩)
    · exact Or.inr (by rw [isCancelled_cancel, hcan, Bool.true_or])

end WaitRegistry

end Changefeed
