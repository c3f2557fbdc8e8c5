/-
What is read is what was written. The changes of a journal are those written to it since it was last torn down
(`changes`), told by the writes and the settings alone: a write counts if the journal is there or the settings admit it
(`Feed.Recording`), and if the key and the values have a wire form. The record at a retained sequence is what the change of this number left, part by part (`Carries`), and
reading it gives the change back.

Results:
- `carries_of_encode`: what a written change leaves in its record;
- `view?_of_encode`: a decoder that undoes the encoding gets the change;
- `recorded_changes`: the records of a journal are the wire forms of its changes, in their order;
- `reads_written`: all of it, for every run.
-/
import Changefeed.Proofs.Creation

namespace Changefeed

variable {ω β : Type}

/-! ## One change -/

theorem bind_eq_ok {ε α γ : Type} {x : Except ε α} {g : α → Except ε γ} {c : γ} (h : (x >>= g) = .ok c) :
    ∃ a, x = .ok a ∧ g a = .ok c := by
  cases x with
  | error e => cases h
  | ok a => exact ⟨a, rfl, h⟩

namespace Change

variable {κ ν κ' ν' : Type}

/-- the same change of other keys and values -/
def map (key : κ → κ') (value : ν → ν') : Change κ ν → Change κ' ν'
  | added k v => added (key k) (value v)
  | removed k v => removed (key k) (value v)
  | updated k v w => updated (key k) (value v) (value w)
  | evicted k v => evicted (key k) (value v)

/-- the change as a consumer sees it -/
def event (c : Change κ ν) : MapEvent κ ν := ⟨c.key, c.new?, c.old?, c.kind⟩

/-- what a record carries of a change: its kind, the wire form of its key, and those of its values, each in its place -/
def Carries (encode : ω → Except WireError Data) : Change ω ω → EventRecord → Prop
  | added k new, r => r.kind = .added ∧ encode k = .ok r.key ∧ r.old? = none ∧ ∃ d, encode new = .ok d ∧ r.new? = some d
  | removed k old, r => r.kind = .removed ∧ encode k = .ok r.key ∧ r.new? = none ∧ ∃ d, encode old = .ok d ∧ r.old? = some d
  | updated k old new, r => r.kind = .updated ∧ encode k = .ok r.key ∧ (∃ d, encode old = .ok d ∧ r.old? = some d) ∧
      ∃ d, encode new = .ok d ∧ r.new? = some d
  | evicted k old, r => r.kind = .evicted ∧ encode k = .ok r.key ∧ r.new? = none ∧ ∃ d, encode old = .ok d ∧ r.old? = some d

/-- a change and its wire form -/
inductive Wired {ε : Type} (key : κ → Except ε κ') (value : ν → Except ε ν') : Change κ ν → Change κ' ν' → Prop
  | added {k : κ} {v : ν} {k' : κ'} {v' : ν'} (hk : key k = .ok k') (hv : value v = .ok v') :
      Wired key value (.added k v) (.added k' v')
  | removed {k : κ} {v : ν} {k' : κ'} {v' : ν'} (hk : key k = .ok k') (hv : value v = .ok v') :
      Wired key value (.removed k v) (.removed k' v')
  | updated {k : κ} {v w : ν} {k' : κ'} {v' w' : ν'} (hk : key k = .ok k') (hv : value v = .ok v')
      (hw : value w = .ok w') : Wired key value (.updated k v w) (.updated k' v' w')
  | evicted {k : κ} {v : ν} {k' : κ'} {v' : ν'} (hk : key k = .ok k') (hv : value v = .ok v') :
      Wired key value (.evicted k v) (.evicted k' v')

theorem wired_of_encode {ε : Type} {key : κ → Except ε κ'} {value : ν → Except ε ν'} {c : Change κ ν}
    {r : Change κ' ν'} (h : c.encode key value = .ok r) : Wired key value c r := by
  cases c with
  | added k v =>
    obtain ⟨k', hk, h⟩ := bind_eq_ok h
    obtain ⟨v', hv, h⟩ := bind_eq_ok h
    cases h
    exact .added hk hv
  | removed k v =>
    obtain ⟨k', hk, h⟩ := bind_eq_ok h
    obtain ⟨v', hv, h⟩ := bind_eq_ok h
    cases h
    exact .removed hk hv
  | updated k v w =>
    obtain ⟨k', hk, h⟩ := bind_eq_ok h
    obtain ⟨v', hv, h⟩ := bind_eq_ok h
    obtain ⟨w', hw, h⟩ := bind_eq_ok h
    cases h
    exact .updated hk hv hw
  | evicted k v =>
    obtain ⟨k', hk, h⟩ := bind_eq_ok h
    obtain ⟨v', hv, h⟩ := bind_eq_ok h
    cases h
    exact .evicted hk hv

/-- every part of a written change is in its place in the record -/
theorem carries_of_encode {encode : ω → Except WireError Data} {c : Change ω ω} {r : EventRecord}
    (h : c.encode encode encode = .ok r) : Carries encode c r := by
  cases wired_of_encode h with
  | added hk hv => exact ⟨rfl, hk, rfl, _, hv, rfl⟩
  | removed hk hv => exact ⟨rfl, hk, rfl, _, hv, rfl⟩
  | updated hk hv hw => exact ⟨rfl, hk, ⟨_, hv, rfl⟩, _, hw, rfl⟩
  | evicted hk hv => exact ⟨rfl, hk, rfl, _, hv, rfl⟩

/-- a decoder that undoes the encoding of the keys and of the values gets the change back -/
theorem view?_of_encode {encode : ω → Except WireError Data} {key : κ → ω} {value : ν → ω}
    {readKey : Data → Option κ} {readValue : Data → Option ν} (hkey : ∀ k d, encode (key k) = .ok d → readKey d = some k)
    (hvalue : ∀ v d, encode (value v) = .ok d → readValue d = some v) {c : Change κ ν} {r : EventRecord}
    (h : (c.map key value).encode encode encode = .ok r) : r.view? readKey readValue = some c.event := by
  generalize hc : c.map key value = c' at h
  cases wired_of_encode h with
  | added hk hv =>
    cases c <;> cases hc
    simp [view?, Change.key, new?, old?, readOptional, hkey _ _ hk, hvalue _ _ hv, event, kind]
  | removed hk hv =>
    cases c <;> cases hc
    simp [view?, Change.key, new?, old?, readOptional, hkey _ _ hk, hvalue _ _ hv, event, kind]
  | updated hk hv hw =>
    cases c <;> cases hc
    simp [view?, Change.key, new?, old?, readOptional, hkey _ _ hk, hvalue _ _ hv, hvalue _ _ hw, event, kind]
  | evicted hk hv =>
    cases c <;> cases hc
    simp [view?, Change.key, new?, old?, readOptional, hkey _ _ hk, hvalue _ _ hv, event, kind]

end Change

/-! ## The changes of a journal -/

/-- the operation appends to no journal but by a write -/
def Op.writesOnly : Op ω β → Bool
  | .append .. => false
  | _ => true

/-- what is written to the journal of a key is recorded: the service is there, and the journal exists or is admitted by the
settings -/
def Feed.Recording (f : Feed β) (key : JournalKey) : Prop :=
  f.registered = true ∧ ((∃ c, f.store.live? key = some c) ∨ f.Admitted key.ns)

instance (f : Feed β) (key : JournalKey) : Decidable (f.Recording key) := decidable_of_iff _ Feed.provides_iff

/-- the change that an operation writes to the journal of a key -/
def Op.change? (encode : ω → Except WireError Data) (f : Feed β) (key : JournalKey) : Op ω β → Option (Change ω ω)
  | .write k _ change =>
    if k = key ∧ f.Recording k ∧ (change.encode encode encode).toOption.isSome = true then some change else none
  | _ => none

/-- the record that an operation appends is the wire form of the change that it writes -/
theorem appended?_eq {encode : ω → Except WireError Data} {f : Feed β} {key : JournalKey} {op : Op ω β}
    (hop : op.writesOnly = true) :
    (op.appended? encode f key).toList.map Except.ok =
      (op.change? encode f key).toList.map fun c => c.encode encode encode := by
  cases op with
  | write k now change =>
    have hrecording : f.Recording k ↔ f.provides k = true := Feed.provides_iff.symm
    simp only [Op.appended?, Op.change?, hrecording]
    by_cases hk : k = key ∧ f.provides k = true
    · cases he : change.encode encode encode with
      | error e => simp [hk, Except.toOption]
      | ok a => simp [hk.1, hk.1 ▸ hk.2, he, Except.toOption]
    · have hno : ¬ (k = key ∧ f.provides k = true ∧ (change.encode encode encode).toOption.isSome = true) :=
        fun h => hk ⟨h.1, h.2.1⟩
      simp [if_neg hk, if_neg hno]
  | append h record now => cases hop
  | _ => rfl

namespace Feed

/-- the changes of a journal after a run: those written to it since it was last torn down -/
def changes (encode : ω → Except WireError Data) (key : JournalKey) :
    Feed β → List (Change ω ω) → List (Op ω β) → List (Change ω ω)
  | _, past, [] => past
  | f, past, op :: ops =>
    changes encode key (f.step encode op).1
      (if op.tearsDown f key then [] else past ++ (op.change? encode f key).toList) ops

/-- **The records of a journal are the wire forms of its changes**, one for each, in their order. -/
theorem recorded_changes (encode : ω → Except WireError Data) (key : JournalKey) {f : Feed β} {past : List EventRecord}
    {written : List (Change ω ω)} (h : past.map Except.ok = written.map fun c => c.encode encode encode)
    {ops : List (Op ω β)} (hops : ∀ op ∈ ops, op.writesOnly = true) :
    (recorded encode key f past ops).map Except.ok =
      (changes encode key f written ops).map fun c => c.encode encode encode := by
  induction ops generalizing f past written with
  | nil => exact h
  | cons op ops ih =>
    apply ih
    · unfold Op.record
      split
      · rfl
      · rw [List.map_append, List.map_append, h, appended?_eq (hops op List.mem_cons_self)]
    · intro op' hop'
      exact hops op' (List.mem_cons_of_mem op hop')

/-! ## Reading -/

/-- asks for a single record, whichever it is -/
def oneRecord : Batch EventRecord EventRecord := ⟨0, 1, none, id, #[], 0, 0⟩

/-- a scan for a single record finds the one at which it starts -/
theorem readMany_oneRecord {c : Container EventRecord} {past : List EventRecord} (h : c.Records past) {n : ℕ}
    (hn : c.head ≤ n) {a : EventRecord} (ha : past[n]? = some a) :
    c.readMany n oneRecord = .ok (oneRecord.offer n a, 1) := by
  obtain ⟨hlt, hget⟩ := List.getElem?_eq_some_iff.1 ha
  obtain ⟨k, hk, -, heq, -, hroom⟩ := Container.readMany_visit_of_room h (b := oneRecord) hn hlt rfl
  have hone : oneRecord.visit past (List.range' n 1) = oneRecord.offer n a := by
    simp [Batch.look, ha]
  have hfull : (oneRecord.visit past (List.range' n 1)).full = true := by
    rw [hone]
    rfl
  have hkone : k = 1 := by
    by_contra hne
    rw [hroom 1 (by omega)] at hfull
    cases hfull
  rw [heq, hkone, hone]

/-- what is read at a sequence: the record that this change left -/
structure ReadsBack (encode : ω → Except WireError Data) (f : Feed β) (key : JournalKey) (c : Container EventRecord)
    (s : Int) (change : Change ω ω) (record : EventRecord) : Prop where
  one : c.readOne s = .ok record
  scan : f.registered = true → ∃ b, (f.readMany key s oneRecord).2 = .ok (b, 1) ∧ b.kept = #[(s, record)]
  carries : change.Carries encode record
  /-- whoever can undo the encoding gets the change back -/
  decodes : ∀ {κ ν : Type} (toKey : κ → ω) (toValue : ν → ω) (readKey : Data → Option κ) (readValue : Data → Option ν),
    (∀ k d, encode (toKey k) = .ok d → readKey d = some k) →
    (∀ v d, encode (toValue v) = .ok d → readValue d = some v) →
    ∀ typed : Change κ ν, typed.map toKey toValue = change → record.view? readKey readValue = some typed.event

section Journal

variable {encode : ω → Except WireError Data} {f : Feed β} {past : JournalKey → List EventRecord} {key : JournalKey}
  {written : List (Change ω ω)}

/-- the newest sequence counts the changes -/
theorem newest_of_history (h : f.History past)
    (hw : (past key).map Except.ok = written.map fun c => c.encode encode encode) {n : Int}
    (hn : (f.newest key).2 = .ok n) : n + 1 = written.length := by
  have hlength := congrArg List.length hw
  rw [List.length_map, List.length_map] at hlength
  generalize hp : f.container? key = p at hn
  rcases p with ⟨f', e | (_ | c)⟩
  · simp [newest, query, container, hp] at hn
  · simp [newest, query, container, hp] at hn
  · simp only [newest, query, container, hp] at hn
    cases hn
    have htail := (h.found hp).tail
    omega

/-- every retained sequence holds the record of its change -/
theorem readsBack_of_history (h : f.History past)
    (hw : (past key).map Except.ok = written.map fun c => c.encode encode encode) {c : Container EventRecord}
    (hc : f.store.live? key = some c) {s : Int} (hs : c.head ≤ s) (hs' : s ≤ c.tail) :
    ∃ change record, written[s.toNat]? = some change ∧ ReadsBack encode f key c s change record := by
  have hcontents := h.live hc
  have htail := hcontents.tail
  obtain ⟨n, rfl⟩ := hcontents.natural hs
  have hlt : n < (past key).length := by omega
  have hrecord : (past key)[n]? = some (past key)[n] := List.getElem?_eq_getElem hlt
  generalize (past key)[n] = record at hrecord
  have hmap := congrArg (fun l => l[n]?) hw
  simp only [List.getElem?_map, hrecord, Option.map_some] at hmap
  obtain ⟨change, hchange, hencoded⟩ := Option.map_eq_some_iff.1 hmap.symm
  refine ⟨change, record, by rwa [Int.toNat_natCast], hcontents.readOne hs hrecord, ?_,
    Change.carries_of_encode hencoded, ?_⟩
  · intro hregistered
    refine ⟨oneRecord.offer n record, ?_, rfl⟩
    rw [Feed.readMany, query_live hregistered hc, readMany_oneRecord hcontents hs hrecord]
  · intro κ ν toKey toValue readKey readValue hkey hvalue typed htyped
    rw [← htyped] at hencoded
    exact Change.view?_of_encode hkey hvalue hencoded

end Journal

/-- **What is read is what was written.** After any run, in the journal of any key:
- the newest sequence is one less than the number of changes written since the journal was last torn down;
- at every retained sequence there is the record that the change of this number left. -/
theorem reads_written (encode : ω → Except WireError Data) (resolver : Resolver) (registered : Bool)
    (ops : List (Op ω β)) (hops : ∀ op ∈ ops, op.writesOnly = true) (key : JournalKey) :
    let start : Feed β := init resolver registered
    let f := (start.run encode ops).1
    let written := changes encode key start [] ops
    (∀ n, (f.newest key).2 = .ok n → n + 1 = written.length) ∧
    ∀ c, f.store.live? key = some c →
      (f.registered = true → (f.newest key).2 = .ok c.tail) ∧ c.tail + 1 = written.length ∧
      ∀ s, c.head ≤ s → s ≤ c.tail →
        ∃ change record, written[s.toNat]? = some change ∧ ReadsBack encode f key c s change record := by
  intro start f written
  have hhistory := (sound_run encode (sound_init resolver registered : start.Sound fun _ => []) ops).history
  have hrecords : (recorded encode key start [] ops).map Except.ok = written.map fun c => c.encode encode encode :=
    recorded_changes encode key rfl hops
  refine ⟨fun n => newest_of_history hhistory hrecords, fun c hc => ⟨?_, ?_, fun s => readsBack_of_history hhistory hrecords hc⟩⟩
  · intro hregistered
    rw [newest, query_live hregistered hc]
  · have hlength := congrArg List.length hrecords
    rw [List.length_map, List.length_map] at hlength
    have htail := (hhistory.live hc).tail
    rw [htail, hlength]
    exact Int.sub_add_cancel _ 1

/-- puts a mark in front of every key and value -/
def markedForm (d : Data) : Except WireError Data := .ok (7 :: d)

/-- the orders are torn down after their first change, and the stocks change in between -/
def orderChanges : List (Op Data Data) :=
  [addOrder 0, .destroy ordersKey, .write ordersKey 0 (.removed [1] [5]), .write stocksKey 0 (.added [1] [9]),
    .newest stocksKey, .write ordersKey 0 (.updated [1] [5] [6])]

theorem reads_written_orders :
    let f : Feed Data := (run markedForm (init smallResolver true) orderChanges).1
    let written := changes markedForm ordersKey (init smallResolver true : Feed Data) [] orderChanges
    (∀ op ∈ orderChanges, op.writesOnly = true) ∧ written = [.removed [1] [5], .updated [1] [5] [6]] ∧
      ∃ c record, f.store.live? ordersKey = some c ∧ (f.newest ordersKey).2 = .ok c.tail ∧ c.tail + 1 = written.length ∧
        ReadsBack markedForm f ordersKey c 1 (.updated [1] [5] [6]) record ∧
        record.view? List.tail? List.tail? = some ⟨[1], some [6], some [5], .updated⟩ := by
  intro f written
  have hops : ∀ op ∈ orderChanges, op.writesOnly = true := by decide
  have hwritten : written = [.removed [1] [5], .updated [1] [5] [6]] := by decide +kernel
  have hhead : (f.store.live? ordersKey).map Container.head = some 0 := by decide +kernel
  obtain ⟨c, hc, hzero⟩ := Option.map_eq_some_iff.1 hhead
  obtain ⟨-, hlive⟩ := reads_written markedForm smallResolver true orderChanges hops ordersKey
  obtain ⟨hnewest, htail, hreads⟩ := hlive c hc
  have hlength : c.tail + 1 = 2 := htail.trans (by rw [show changes _ _ _ _ _ = _ from hwritten]; rfl)
  obtain ⟨change, record, hchange, hback⟩ := hreads 1 (by omega) (by omega)
  obtain rfl : change = .updated [1] [5] [6] := by
    rw [show changes _ _ _ _ _ = _ from hwritten] at hchange
    exact (Option.some.inj hchange).symm
  have htyped := hback.decodes id id List.tail? List.tail? (fun k d h => by cases h; rfl) (fun v d h => by cases h; rfl)
    (.updated [1] [5] [6]) rfl
  exact ⟨hops, hwritten, c, record, hc, hnewest rfl, htail, hback, htyped⟩

end Feed

end Changefeed
