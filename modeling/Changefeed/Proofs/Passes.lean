/-
Why every poll of a reader comes to an end. A reader looks at its journal again and again, pass after pass, until a pass is
the last: nothing but the journal bounds the loop. Here the loop is a relation, without any bound (`Passes`), and each pass
says where the reader stood, with what batch, and what scan it made, if it made one. For that a turn is made to tell of its scan
(`turnScan`); what it comes to is what it comes to anyway.

Only a pass that scans is followed by another. At a journal that holds its history a scan that leaves room in the batch has
got past the tail, so that the pass behind it finds nothing to scan, whatever the filter of the batch let through. Hence a
poll makes two passes at most, and of these at most one scans.

Results:
- `turnScan_fst`: a turn that tells of its scan is the turn;
- `Passes.unique`, `Passes.turns_eq`: a loop takes one course only, and turns that are counted take the same;
- `turnScan_found`, `turnScan_cases`: a pass that does not scan is the last, and one that scans stands at a retained sequence;
- `turnScan_scanning`: a pass that scans fills the batch or goes on just behind the tail;
- `settle_turns`: what a poll answers is read off where its turns end;
- `passes_history`: the passes of a loop, from any position and with any batch;
- `polls_end`: so every poll of every reader ends.
-/
import Changefeed.Proofs.Tracks

namespace Changefeed

/-- one pass of a reader's loop -/
structure Pass (β : Type) where
  /-- where the reader stood -/
  position : Int
  /-- what it had collected before -/
  batch : Batch EventRecord β
  /-- what the scan of this pass gave; `none` if the pass ended without one -/
  scan : Option (Except JournalError (Batch EventRecord β × ℕ))

/-- the scan of the pass, if it made one, visited a record, unless the batch was full before -/
def Pass.Gains {β : Type} (pass : Pass β) : Prop :=
  ∀ a, pass.scan = some a →
    ∃ b' k, a = .ok (b', k) ∧ b'.visited = pass.batch.visited + k ∧ (0 < k ∨ pass.batch.full = true)

namespace Feed

variable {ω β : Type}

/-- a turn of a reader, and the scan that it made, if it got so far -/
def turnScan (f : Feed β) (w : Waiter) (s : Int) (b : Batch EventRecord β) :
    (Feed β × Turn β) × Option (Except JournalError (Batch EventRecord β × ℕ)) :=
  let key := w.key
  let watch := f.waits.watch w
  if f.waits.isCancelled w then
    ((f, .finished (.error (.destroyed key.ns.object key.part))), none)
  else
    match f.checkPosition key s with
    | (f, .error e) => ((f, .finished (.error e)), none)
    | (f, .ok ()) =>
      match f.shouldWait key s with
      | (f, .error e) => ((f, .finished (.error e)), none)
      | (f, .ok true) => (if b.satisfied then (f, .finished (.ok b)) else (f, .parked watch s b), none)
      | (f, .ok false) =>
        match f.readMany key s b with
        | (f, .error e) => ((f, .finished (.error e)), some (.error e))
        | (f, .ok (b, k)) => (if b.full then (f, .finished (.ok b)) else (f, .again b.next b), some (.ok (b, k)))

/-- where the turns of a reader leave the feed and the reader: done, it gives its registration up; parked, it stays -/
def settle (id : String) (w : Waiter) (r : Reader β) : Feed β × Turn β → Feed β × Progress β
  | (f, .finished result) => ({ f with jobs := f.jobs.erase id, waits := f.waits.release w }, .finished result)
  | (f, .parked watch position batch) =>
    ({ f with jobs := f.jobs.set id (.reader { r with position, batch, parked := some watch }) }, .pending)
  | (f, .again position batch) =>
    ({ f with jobs := f.jobs.set id (.reader { r with position, batch, parked := some (f.waits.watch w) }) }, .pending)

/-- the loop of a reader: turn after turn, until one is the last; with its passes, and what it comes to -/
inductive Passes (w : Waiter) :
    Feed β → Int → Batch EventRecord β → List (Pass β) → Feed β × Turn β → Prop
  | last {f : Feed β} {s : Int} {b : Batch EventRecord β} {p : Feed β × Turn β}
      {scan : Option (Except JournalError (Batch EventRecord β × ℕ))} (h : f.turnScan w s b = (p, scan))
      (hlast : ∀ s' b', p.2 ≠ .again s' b') : Passes w f s b [⟨s, b, scan⟩] p
  | next {f f' : Feed β} {s s' : Int} {b b' : Batch EventRecord β} {passes : List (Pass β)} {p : Feed β × Turn β}
      {scan : Option (Except JournalError (Batch EventRecord β × ℕ))}
      (h : f.turnScan w s b = ((f', .again s' b'), scan)) (hrest : Passes w f' s' b' passes p) :
      Passes w f s b (⟨s, b, scan⟩ :: passes) p

/-- what is to be said of the passes of one poll -/
structure Brief (passes : List (Pass β)) : Prop where
  few : passes.length ≤ 2
  /-- at most one of them scans -/
  scans : (passes.filterMap Pass.scan).length ≤ 1
  gains : ∀ pass ∈ passes, pass.Gains
  /-- no pass stands where one stood before -/
  onward : (passes.map Pass.position).Pairwise (· < ·)

section Loop

variable {f : Feed β} {w : Waiter} {s : Int} {b : Batch EventRecord β}

/-- a turn that tells of its scan is the turn -/
theorem turnScan_fst (f : Feed β) (w : Waiter) (s : Int) (b : Batch EventRecord β) :
    (f.turnScan w s b).1 = f.turn w s b := by
  unfold turnScan turn
  cases f.waits.isCancelled w with
  | true => rfl
  | false =>
    simp only [Bool.false_eq_true, if_false]
    rcases f.checkPosition w.key s with ⟨f₁, e | ⟨⟩⟩
    · rfl
    · rcases hwait : f₁.shouldWait w.key s with ⟨f₂, e | (_ | _)⟩
      · simp only [hwait]
      · simp only [hwait]
        rcases f₂.readMany w.key s b with ⟨f₃, e | ⟨b', k⟩⟩ <;> rfl
      · simp only [hwait]

theorem turn_of_turnScan {p : Feed β × Turn β} {scan : Option (Except JournalError (Batch EventRecord β × ℕ))}
    (h : f.turnScan w s b = (p, scan)) : f.turn w s b = p := by
  rw [← turnScan_fst, h]

/-- what a poll answers is read off where its turns end -/
theorem settle_turns (f : Feed β) (id : String) (w : Waiter) (r : Reader β) :
    f.advance id w r = settle id w r (turns w 2 f r.position r.batch) := rfl

/-- a loop takes one course only -/
theorem Passes.unique {passes passes' : List (Pass β)} {p p' : Feed β × Turn β} (h : Passes w f s b passes p)
    (h' : Passes w f s b passes' p') : passes = passes' ∧ p = p' := by
  induction h generalizing passes' p' with
  | last hturn hlast =>
    cases h' with
    | last hturn' _ =>
      rw [hturn] at hturn'
      cases hturn'
      exact ⟨rfl, rfl⟩
    | next hturn' _ =>
      rw [hturn] at hturn'
      exact absurd (congrArg (·.1.2) hturn') (hlast _ _)
  | next hturn _ ih =>
    cases h' with
    | last hturn' hlast' =>
      rw [hturn] at hturn'
      exact absurd (congrArg (·.1.2) hturn').symm (hlast' _ _)
    | next hturn' hrest' =>
      rw [hturn] at hturn'
      cases hturn'
      obtain ⟨rfl, rfl⟩ := ih hrest'
      exact ⟨rfl, rfl⟩

/-- what the loop comes to is what any number of turns come to that leaves room for its passes -/
theorem Passes.turns_eq {passes : List (Pass β)} {p : Feed β × Turn β} (h : Passes w f s b passes p) {n : ℕ}
    (hn : passes.length ≤ n) : turns w n f s b = p := by
  induction h generalizing n with
  | @last f s b p scan h hlast =>
    obtain ⟨m, rfl⟩ : ∃ m, n = m + 1 := Nat.exists_eq_add_of_le' hn
    obtain ⟨f', t⟩ := p
    simp only [turns, turn_of_turnScan h]
    cases t with
    | finished result => rfl
    | parked watch position b' => rfl
    | again s' b' => exact absurd rfl (hlast s' b')
  | @next f f' s s' b b' passes p scan h hrest ih =>
    rw [List.length_cons] at hn
    obtain ⟨m, rfl⟩ : ∃ m, n = m + 1 := ⟨n - 1, by omega⟩
    simp only [turns, turn_of_turnScan h]
    exact ih (by omega)

/-! ## One pass -/

/-- the turn of a reader that finds its journal is told by the container -/
theorem turnScan_found {f' : Feed β} {c : Container EventRecord} (hc : f.waits.isCancelled w = false)
    (hlook : f.container? w.key = (f', .ok (some c))) (s : Int) (b : Batch EventRecord β) :
    f.turnScan w s b = match c.checkPosition s with
      | .error e => ((f', .finished (.error e)), none)
      | .ok () =>
        if c.shouldWait s then
          (if b.satisfied then (f', .finished (.ok b)) else (f', .parked (f.waits.watch w) s b), none)
        else match c.readMany s b with
          | .error e => ((f', .finished (.error e)), some (.error e))
          | .ok (b, k) => (if b.full then (f', .finished (.ok b)) else (f', .again b.next b), some (.ok (b, k))) := by
  have hagain : f'.container? w.key = (f', .ok (some c)) := by
    have := container?_again f w.key
    rwa [hlook] at this
  simp only [turnScan, hc, Bool.false_eq_true, if_false, checkPosition, shouldWait, readMany, query_found hlook]
  cases c.checkPosition s with
  | error e => rfl
  | ok _ =>
    simp only [query_found hagain]
    cases c.shouldWait s with
    | true => rfl
    | false =>
      simp only [query_found hagain]
      cases c.readMany s b <;> rfl

/-- **A turn either does not scan, and then it is the last, or has found its journal, which can be read at its position.** -/
theorem turnScan_cases (f : Feed β) (w : Waiter) (s : Int) (b : Batch EventRecord β) :
    (∃ p, f.turnScan w s b = (p, none) ∧ ∀ s' b', p.2 ≠ .again s' b') ∨
      ∃ f' c, f.waits.isCancelled w = false ∧ f.container? w.key = (f', .ok (some c)) ∧ c.head ≤ s ∧ s ≤ c.tail ∧
        (f.turnScan w s b).2 = some (c.readMany s b) := by
  cases hc : f.waits.isCancelled w with
  | true =>
    exact Or.inl ⟨(f, .finished (.error (.destroyed w.key.ns.object w.key.part))), by simp [turnScan, hc], by simp⟩
  | false =>
    -- a reader that finds no journal is done; one that finds it goes by the container
    rcases hlook : f.container? w.key with ⟨f', e | (_ | c)⟩
    · exact Or.inl ⟨(f', .finished (.error e)), by simp [turnScan, hc, checkPosition, query, container, hlook], by simp⟩
    · exact Or.inl ⟨(f', .finished (.error (.notConfigured w.key.ns.object))),
        by simp [turnScan, hc, checkPosition, query, container, hlook], by simp⟩
    · have hturn := turnScan_found hc hlook s b
      cases hpos : c.checkPosition s with
      | error e => exact Or.inl ⟨_, by rw [hturn, hpos], by simp⟩
      | ok _ =>
        rw [hpos] at hturn
        cases hwait : c.shouldWait s with
        | true =>
          rw [hwait] at hturn
          exact Or.inl ⟨_, hturn, by cases b.satisfied <;> simp⟩
        | false =>
          have hhead := (Container.checkPosition_ok_iff.1 hpos).1
          have htail : s ≤ c.tail := by simpa [Container.shouldWait] using hwait
          refine Or.inr ⟨f', c, rfl, rfl, hhead, htail, ?_⟩
          rw [hturn, hwait]
          cases c.readMany s b <;> rfl

/-- just behind the tail of a live journal there is nothing to scan -/
theorem last_behind_tail {c : Container EventRecord} (hr : f.registered = true) (hl : f.store.live? w.key = some c) :
    ∃ p, f.turnScan w (c.tail + 1) b = (p, none) ∧ ∀ s' b', p.2 ≠ .again s' b' := by
  rcases f.turnScan_cases w (c.tail + 1) b with hlast | ⟨f', c', -, hlook, -, hs, -⟩
  · exact hlast
  · obtain rfl : c = c' := by simpa [container?_live hr hl] using congrArg Prod.snd hlook
    omega

/-- a pass that scans ends the poll with a full batch, or is followed by one just behind the tail -/
theorem turnScan_scanning {f' : Feed β} {c : Container EventRecord} (hc : f.waits.isCancelled w = false)
    (hlook : f.container? w.key = (f', .ok (some c))) (hhead : c.head ≤ s) (htail : s ≤ c.tail)
    {b' : Batch EventRecord β} {k : ℕ} (hread : c.readMany s b = .ok (b', k)) :
    (f.turnScan w s b).1 = (f', if b'.full then .finished (.ok b') else .again (c.tail + 1) b') := by
  have hpos : c.checkPosition s = .ok () := Container.checkPosition_ok_iff.2 ⟨hhead, by omega⟩
  have hwait : c.shouldWait s = false := by simpa [Container.shouldWait] using htail
  rw [turnScan_found hc hlook, hpos, hwait, hread]
  cases hf : b'.full with
  | true => simp [hf]
  | false => simp [hf, Container.readMany_next hread hf]

end Loop

/-- a scan of a sequence that is retained visits a record, unless there is no room for it -/
theorem scan_gains {c : Container EventRecord} {past : List EventRecord} (h : c.Records past) {s : Int}
    (hhead : c.head ≤ s) (htail : s ≤ c.tail) (b : Batch EventRecord β) :
    ∃ b' k, c.readMany s b = .ok (b', k) ∧ b'.visited = b.visited + k ∧ (0 < k ∨ b.full = true) := by
  obtain ⟨n, rfl⟩ := h.natural hhead
  have ht := h.tail
  obtain ⟨k, hk, hread, hstop, -⟩ := Container.readMany_visit h b hhead (by omega)
  refine ⟨_, k, hread, ?_, ?_⟩
  · have hwritten : ∀ t ∈ List.range' n k, t < past.length := by
      intro t ht
      have := (List.mem_range'_1.1 ht).2
      omega
    rw [Batch.visited_visit b hwritten, List.length_range']
  · rcases Nat.eq_zero_or_pos k with rfl | hpos
    · exact Or.inr (hstop.resolve_left (by omega))
    · exact Or.inl hpos

/-! ## The loop -/

/-- **A reader's loop is brief.** At a feed whose journals hold their history, from any position and with any batch. -/
theorem passes_history {f : Feed β} {past : JournalKey → List EventRecord} (h : f.History past) (w : Waiter) (s : Int)
    (b : Batch EventRecord β) : ∃ passes last, Passes w f s b passes last ∧ Brief passes := by
  rcases f.turnScan_cases w s b with ⟨p, hturn, hlast⟩ | ⟨f', c, hc, hlook, hhead, htail, hscan⟩
  · exact ⟨_, p, .last hturn hlast, by simp, by simp, by simp [Pass.Gains], by simp⟩
  · obtain ⟨b', k, hread, hvisited, hgain⟩ := scan_gains (h.found hlook) hhead htail b
    have hturn := turnScan_scanning hc hlook hhead htail hread
    rw [hread] at hscan
    have hgains : Pass.Gains ⟨s, b, some (.ok (b', k))⟩ := by
      intro a ha
      exact ⟨b', k, (Option.some.inj ha).symm, hvisited, hgain⟩
    cases hf : b'.full with
    | true =>
      rw [hf, if_pos rfl] at hturn
      exact ⟨_, _, .last (Prod.ext hturn hscan) (by simp), by simp, by simp, by simpa using hgains, by simp⟩
    | false =>
      rw [hf, if_neg Bool.false_ne_true] at hturn
      obtain ⟨hr, hlive, -⟩ := live_of_container? hlook
      obtain ⟨p, hturn', hlast⟩ := last_behind_tail (b := b') hr hlive
      refine ⟨_, p, .next (Prod.ext hturn hscan) (.last hturn' hlast), ?_⟩
      have hnothing : Pass.Gains ⟨c.tail + 1, b', none⟩ := by simp [Pass.Gains]
      have honward : s < c.tail + 1 := by omega
      exact ⟨by simp, by simp, by simpa using ⟨hgains, hnothing⟩, by simpa using honward⟩

/-- **Every poll of a reader comes to an end.** Whatever was done to a feed before, and whatever reader is polled, at any
position and with any batch: it sleeps on, or its loop ends after at most two passes, one of which at most scans. The loop can take
no other course, turns that are counted come to the same, and where it ends is what the poll answers. The passes are those of the
reader's own turns. -/
theorem polls_end (encode : ω → Except WireError Data) (resolver : Resolver) (registered : Bool) (ops : List (Op ω β))
    (id : String) (r : Reader β) :
    let f := ((init resolver registered).run encode ops).1
    ((∃ watch, r.parked = some watch ∧ f.waits.ready watch = false ∧ f.pollReader id r = (f, .pending)) ∨
      ∃ f₀ w passes last, Enrolled f r f₀ w ∧ f.pollReader id r = f₀.advance id w r ∧
        Passes w f₀ r.position r.batch passes last ∧ Brief passes ∧
        (∀ passes' last', Passes w f₀ r.position r.batch passes' last' → passes' = passes ∧ last' = last) ∧
        (∀ n, passes.length ≤ n → turns w n f₀ r.position r.batch = last) ∧ f₀.advance id w r = settle id w r last) ∧
    ∀ (g : Feed β) w s b, (g.turnScan w s b).1 = g.turn w s b := by
  intro f
  have hsound := sound_run encode (sound_init resolver registered) ops
  have hloop : ∀ f₀ w, Enrolled f r f₀ w → ∃ passes last, Passes w f₀ r.position r.batch passes last ∧ Brief passes ∧
      (∀ passes' last', Passes w f₀ r.position r.batch passes' last' → passes' = passes ∧ last' = last) ∧
      (∀ n, passes.length ≤ n → turns w n f₀ r.position r.batch = last) ∧ f₀.advance id w r = settle id w r last := by
    intro f₀ w he
    obtain ⟨passes, last, hpasses, hbrief⟩ := passes_history (he.history hsound.history) w r.position r.batch
    have hturns : ∀ n, passes.length ≤ n → turns w n f₀ r.position r.batch = last := fun n hn => hpasses.turns_eq hn
    refine ⟨passes, last, hpasses, hbrief, fun _ _ h => h.unique hpasses, hturns, ?_⟩
    rw [settle_turns, hturns 2 hbrief.few]
  refine ⟨?_, turnScan_fst⟩
  cases hp : r.parked with
  | none =>
    have he := Enrolled.first (f := f) hp
    obtain ⟨passes, last, hpasses⟩ := hloop _ _ he
    exact Or.inr ⟨_, _, passes, last, he, by simp [pollReader, hp], hpasses⟩
  | some watch =>
    cases hr : f.waits.ready watch with
    | false => exact Or.inl ⟨watch, rfl, hr, pollReader_parked hp hr⟩
    | true =>
      have he := Enrolled.woken (f := f) watch hp hr
      obtain ⟨passes, last, hpasses⟩ := hloop _ _ he
      exact Or.inr ⟨_, _, passes, last, he, by simp [pollReader, hp, hr], hpasses⟩

end Feed

end Changefeed
