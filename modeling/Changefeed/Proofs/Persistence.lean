/-
Settings survive their text. All ways to settings go through the same check, so what is written passes it when it is read
again; names are escaped, whatever their characters; and the entries are written in the order of their names, in which a
directory is what its list of entries is.

Results:
- `Faithful`: types whose values are read back from their documents; `faithful_config`, `faithful_directory`;
- `Directory.ofList_entries`: a directory is the directory of its entries;
- `addInPlace_run`: settings that refuse an entry stay as they are;
- `Obtained.valid`: however settings were obtained, each of their entries passes the check;
- `settings_survive`: such settings are read back from their text.
-/
import Changefeed.Proofs.Documents
import Changefeed.Settings.Document

namespace Changefeed

namespace Directory

variable {α : Type}

theorem place_last {name : String} {a : α} {l : List (String × α)} (h : ∀ e ∈ l, e.1 < name) :
    place name a l = l ++ [(name, a)] := by
  induction l with
  | nil => rfl
  | cons e l ih =>
    obtain ⟨n, b⟩ := e
    have hlt : n < name := h (n, b) List.mem_cons_self
    have hne : n ≠ name := fun heq => String.lt_irrefl name (heq ▸ hlt)
    rw [place, if_neg (String.lt_asymm hlt), if_neg hne, ih fun e he => h e (List.mem_cons_of_mem _ he)]
    rfl

/-- **A directory is the directory of its entries.** -/
theorem ofList_entries (d : Directory α) : ofList d.entries = d := by
  have hfold : ∀ (rest : List (String × α)) (placed : Directory α),
      (placed.entries ++ rest).Pairwise (fun a b => a.1 < b.1) →
      (rest.foldl (fun d e => d.insert e.1 e.2) placed).entries = placed.entries ++ rest := by
    intro rest
    induction rest with
    | nil => intro placed _; simp
    | cons e rest ih =>
      intro placed hsorted
      have hlast : (placed.insert e.1 e.2).entries = placed.entries ++ [e] := by
        refine place_last fun e' he' => ?_
        exact (List.pairwise_append.1 hsorted).2.2 e' he' e List.mem_cons_self
      have hsplit : placed.entries ++ e :: rest = (placed.insert e.1 e.2).entries ++ rest := by rw [hlast]; simp
      rw [List.foldl_cons, ih _ (hsplit ▸ hsorted), hsplit]
  have hentries := hfold d.entries empty (by simpa [empty] using d.sorted)
  have hext : ∀ {a b : Directory α}, a.entries = b.entries → a = b := by
    rintro ⟨_, _⟩ ⟨_, _⟩ rfl
    rfl
  exact hext hentries

end Directory

namespace Wire

open Json (Doc OfDoc ofDoc? members neat_members)

/-- every value of the type has a neat document, from which it is read back -/
def Faithful (α : Type) [ToValue α] [OfDoc α] : Prop :=
  ∀ a : α, ∃ t : Doc, (toValue a).toDoc = .ok t ∧ t.Neat ∧ ofDoc? t = some a

theorem faithful_bool : Faithful Bool := fun b => ⟨.bool b, rfl, .bool b, rfl⟩

theorem faithful_unsigned (w : Width) : Faithful (Unsigned w) := by
  intro n
  refine ⟨Value.numeral n.val, rfl, .number n.val, ?_⟩
  have hsigned : Json.Numeral.signed? (Json.Numeral.write n.val) = some (false, n.val) :=
    Json.Numeral.signed?_writeNat n.val
  simp only [ofDoc?, Value.numeral, hsigned, Unsigned.ofNat?_val]

theorem faithful_uint32 : Faithful UInt32 := by
  intro n
  obtain ⟨t, hwritten, hneat, hread⟩ := faithful_unsigned .w32 (.ofUInt32 n)
  refine ⟨t, hwritten, hneat, ?_⟩
  rw [show (ofDoc? t : Option UInt32) = (ofDoc? t : Option (Unsigned .w32)).map Unsigned.toUInt32 from rfl, hread]
  simp

/-- the document of a structure has the documents of its fields under their names -/
theorem toDoc_fields {fs : List (String × Value)} {docs : List (String × Doc)}
    (h : List.Forall₂ (fun f d => f.1 = d.1 ∧ f.2.toDoc = .ok d.2) fs docs) :
    (Value.fields fs).toDoc = .ok (.object (members docs)) := by
  have hdocs : Value.fieldDocs fs = .ok (members docs) := by
    induction h with
    | nil => rfl
    | @cons f d fs docs hf h ih =>
      obtain ⟨name, v⟩ := f
      obtain ⟨rfl, hv⟩ := hf
      simp only [Value.fieldDocs, hv, ih]
      rfl
  simp only [Value.toDoc, hdocs]
  rfl

theorem faithful_config : Faithful JournalConfig := by
  intro c
  obtain ⟨enabled, henabled, hneat, hread⟩ := faithful_bool c.enabled
  obtain ⟨capacity, hcapacity, hneat', hread'⟩ := faithful_uint32 c.capacity
  obtain ⟨ttl, httl, hneat'', hread''⟩ := faithful_uint32 c.ttlSeconds
  let fields : List (String × Doc) := [("enabled", enabled), ("capacity", capacity), ("time_to_live_seconds", ttl)]
  have hfound : (Doc.object (members fields)).fields? ["enabled", "capacity", "time_to_live_seconds"] true =
      some [some enabled, some capacity, some ttl] :=
    Doc.fields?_object (show (fields.map Prod.fst).Nodup by simp [fields]) true
  refine ⟨.object (members fields), ?_, neat_members ?_, ?_⟩
  · exact toDoc_fields (.cons ⟨rfl, henabled⟩ (.cons ⟨rfl, hcapacity⟩ (.cons ⟨rfl, httl⟩ .nil)))
  · simp [fields, hneat, hneat', hneat'']
  · simp only [ofDoc?, hfound, Option.bind_eq_bind, Option.bind_some]
    simp [Json.withDefault, hread, hread', hread'']

/-- **A directory of such values is read back**, with all its names. -/
theorem faithful_directory {α : Type} [ToValue α] [OfDoc α] (h : Faithful α) : Faithful (Directory α) := by
  choose doc hwritten hneat hread using h
  intro d
  let fields := d.entries.map fun e => (e.1, doc e.2)
  have hentries : ∀ entries : List (String × α), Value.entryDocs (entries.map fun e => (.text e.1, toValue e.2)) =
      .ok (members (entries.map fun e => (e.1, doc e.2))) := by
    intro entries
    induction entries with
    | nil => rfl
    | cons e entries ih =>
      simp only [List.map_cons, Value.entryDocs, Value.keyText, hwritten, ih]
      rfl
  refine ⟨.object (members fields), ?_, neat_members ?_, ?_⟩
  · simp only [toValue, Value.toDoc, hentries]
    rfl
  · intro p hp
    obtain ⟨e, -, rfl⟩ := List.mem_map.1 hp
    exact hneat e.2
  · have hmembers : (members fields).mapM (fun m => do return (← Json.Quoted.decode? m.1, ← ofDoc? m.2)) =
        some d.entries := by
      rw [members, List.mapM_map, List.mapM_map, Json.mapM_some (g := id)]
      · rw [List.map_id]
      · intro e he
        simp [Json.Quoted.decode?_encode, hread]
    simp only [ofDoc?]
    rw [hmembers, Option.bind_eq_bind, Option.bind_some, Directory.ofList_entries]
    rfl

end Wire

namespace Settings

open Wire Json

/-! ## The check -/

/-- an entry passes the check if its name has at most one wildcard and its journal has room, if it is enabled -/
theorem check_ok_iff {name : String} {config : JournalConfig} :
    check name config = .ok () ↔ name.toList.count '*' ≤ 1 ∧ (config.enabled = true → 0 < config.capacity) := by
  have hroom : 0 < config.capacity ↔ config.capacity ≠ 0 := UInt32.pos_iff_ne_zero
  unfold check checkName JournalConfig.validate
  rw [hroom]
  split
  next hmany =>
    refine iff_of_false (fun h => by cases h) fun h => ?_
    omega
  next hfew =>
    split
    next hbad => exact iff_of_false (fun h => by cases h) fun h => h.2 hbad.1 hbad.2
    next hgood =>
      refine iff_of_true rfl ⟨by omega, ?_⟩
      tauto

/-- every entry passes the check -/
def Valid (s : Settings) : Prop := ∀ e ∈ s.journals.entries, check e.1 e.2 = .ok ()

theorem forM_ok_iff {α ε : Type} {f : α → Except ε PUnit} {l : List α} : l.forM f = .ok () ↔ ∀ a ∈ l, f a = .ok () := by
  induction l with
  | nil => simp [List.forM, pure, Except.pure]
  | cons a l ih =>
    rw [List.forall_mem_cons, ← ih]
    simp only [List.forM]
    cases f a with
    | error e => simp [bind, Except.bind]
    | ok u => simp [bind, Except.bind]

theorem validate_ok_iff {s s' : Settings} : validate s = .ok s' ↔ s' = s ∧ s.Valid := by
  rw [Valid, ← forM_ok_iff (f := fun e : String × JournalConfig => check e.1 e.2), validate]
  cases s.journals.entries.forM fun e => check e.1 e.2 with
  | error e => exact iff_of_false (fun h => by cases h) fun h => by cases h.2
  | ok u =>
    constructor
    · intro h
      cases h
      exact ⟨rfl, rfl⟩
    · rintro ⟨rfl, -⟩
      rfl

theorem valid_empty : empty.Valid := fun e he => by cases he

theorem add_ok_iff {s s' : Settings} {name : String} {config : JournalConfig} :
    s.add name config = .ok s' ↔ check name config = .ok () ∧ s' = ⟨s.journals.insert name config⟩ := by
  unfold add
  cases check name config with
  | error e => exact iff_of_false (fun h => by cases h) fun h => by cases h.1
  | ok u =>
    constructor
    · rintro ⟨⟩
      exact ⟨rfl, rfl⟩
    · rintro ⟨-, rfl⟩
      rfl

theorem valid_add {s s' : Settings} {name : String} {config : JournalConfig} (hs : s.Valid)
    (h : s.add name config = .ok s') : s'.Valid := by
  obtain ⟨hcheck, rfl⟩ := add_ok_iff.1 h
  intro e he
  rcases Directory.mem_place he with rfl | he
  · exact hcheck
  · exact hs e he

theorem valid_ofDocument {t : Doc} {s : Settings} (h : ofDocument t = .ok s) : s.Valid := by
  unfold ofDocument at h
  cases hread : ofDoc? t with
  | none => rw [hread] at h; cases h
  | some raw =>
    rw [hread] at h
    obtain ⟨rfl, hvalid⟩ := validate_ok_iff.1 h
    exact hvalid

theorem valid_load {text : Bytes} {s : Settings} (h : load text = .ok s) : s.Valid := by
  unfold load at h
  split at h
  next t _ => exact valid_ofDocument h
  next => cases h

/-- the two ways to read a text give the same settings -/
theorem loadEager_ok_iff {text : Bytes} {s : Settings} : loadEager text = .ok s ↔ load text = .ok s := by
  unfold loadEager load
  cases Json.scan text with
  | document t => rfl
  | trailing t =>
    -- something follows the document: whatever its settings are, there is no result
    refine iff_of_false (fun h => ?_) (fun h => by cases h)
    dsimp only at h
    cases hread : ofDocument t with
    | error e => rw [hread] at h; cases h
    | ok s' => rw [hread] at h; cases h
  | malformed => rfl

theorem valid_loadEager {text : Bytes} {s : Settings} (h : loadEager text = .ok s) : s.Valid :=
  valid_load (loadEager_ok_iff.1 h)

/-! ## Ways to settings -/

/-- registers settings in place, as their owner does -/
def addInPlace (name : String) (config : JournalConfig) : ExceptT ConfigError (StateM Settings) Unit := do
  MonadExcept.ofExcept (checkName name)
  MonadExcept.ofExcept (config.validate name)
  modify fun s => ⟨s.journals.insert name config⟩

/-- **Settings that refuse an entry stay as they are**; those that take it are the settings with the entry. -/
theorem addInPlace_run (s : Settings) (name : String) (config : JournalConfig) :
    (addInPlace name config).run.run s =
      match s.add name config with
      | .ok s' => (.ok (), s')
      | .error e => (.error e, s) := by
  unfold addInPlace add check
  cases checkName name with
  | error e => rfl
  | ok u =>
    cases config.validate name with
    | error e => rfl
    | ok u => rfl

/-- the settings that can be had: none, those of a document, and those that come of adding to them, in place or not -/
inductive Obtained : Settings → Prop
  | empty : Obtained empty
  | load (text : Bytes) {s : Settings} (h : load text = .ok s) : Obtained s
  | loadEager (text : Bytes) {s : Settings} (h : loadEager text = .ok s) : Obtained s
  | addInPlace {s : Settings} (h : Obtained s) (name : String) (config : JournalConfig) :
      Obtained ((addInPlace name config).run.run s).2
  | add {s s' : Settings} (h : Obtained s) (name : String) (config : JournalConfig) (hadd : s.add name config = .ok s') :
      Obtained s'

/-- **However settings were obtained, each of their entries passes the check.** -/
theorem Obtained.valid {s : Settings} (h : Obtained s) : s.Valid := by
  induction h with
  | empty => exact valid_empty
  | load text h => exact valid_load h
  | loadEager text h => exact valid_loadEager h
  | @addInPlace s _ name config ih =>
    rw [addInPlace_run]
    cases hadd : s.add name config with
    | error e => exact ih
    | ok s' => exact valid_add ih hadd
  | add _ name config hadd ih => exact valid_add ih hadd

/-! ## The text -/

/-- **Settings that pass the check are read back from their text.** -/
theorem Valid.load_text {s : Settings} (h : s.Valid) : ∃ bytes, s.text = .ok bytes ∧ Settings.load bytes = .ok s := by
  obtain ⟨t, hwritten, hneat, hread⟩ := faithful_directory faithful_config s.journals
  let fields : List (String × Doc) := [("journals", t)]
  have hdoc : (toValue s).toDoc = .ok (.object (members fields)) := toDoc_fields (.cons ⟨rfl, hwritten⟩ .nil)
  have hfound : (Doc.object (members fields)).fields? ["journals"] true = some [some t] :=
    Doc.fields?_object (show (fields.map Prod.fst).Nodup by simp [fields]) true
  have hofDoc : Settings.ofDoc? (.object (members fields)) = some s := by
    simp [Settings.ofDoc?, hfound, withDefault, hread]
  have hscan : scan (Doc.object (members fields)).write = .document (.object (members fields)) :=
    scan_write (neat_members (by simpa [fields] using hneat))
  refine ⟨(Doc.object (members fields)).write, ?_, ?_⟩
  · simp only [text, Value.toText, hdoc]
    rfl
  · simp only [load, hscan, ofDocument, hofDoc]
    exact validate_ok_iff.2 ⟨rfl, h⟩

/-- **Settings survive their text**, however they were obtained: their names have at most one wildcard and their enabled
journals have room, an entry they refuse leaves them as they are, and what their text is read as is the settings
themselves, which say the same of every object. -/
theorem settings_survive {s : Settings} (h : Obtained s) :
    (∀ e ∈ s.journals.entries, e.1.toList.count '*' ≤ 1 ∧ (e.2.enabled = true → 0 < e.2.capacity)) ∧
    (∀ name config e s', (addInPlace name config).run.run s = (.error e, s') → s' = s) ∧
    ∃ bytes s', s.text = .ok bytes ∧ load bytes = .ok s' ∧ s' = s ∧ ∀ object, s'.config? object = s.config? object := by
  refine ⟨fun e he => check_ok_iff.1 (h.valid e he), fun name config e s' hrun => ?_, ?_⟩
  · rw [addInPlace_run] at hrun
    cases hadd : s.add name config with
    | error e =>
      rw [hadd] at hrun
      cases hrun
      rfl
    | ok s'' =>
      rw [hadd] at hrun
      cases hrun
  · obtain ⟨bytes, htext, hload⟩ := h.valid.load_text
    exact ⟨bytes, s, htext, hload, rfl, fun _ => rfl⟩

/-- settings with a name of quotes, a backslash, a control character and letters beyond ASCII, and a name refused for its two
wildcards, are read back, and refuse that name again -/
theorem settings_survive_odd :
    let odd := "\"Größe\"\\\n*"
    let config := JournalConfig.ofCapacity 8
    let s := ((addInPlace "**" config).run.run ((addInPlace odd config).run.run empty).2).2
    Obtained s ∧ s.journals.entries = [(odd, config)] ∧ odd.toList.count '*' ≤ 1 ∧
      ((addInPlace "**" config).run.run s).2 = s ∧ ∃ bytes, s.text = .ok bytes ∧ load bytes = .ok s := by
  intro odd config s
  have hs : Obtained s := (Obtained.empty.addInPlace odd config).addInPlace "**" config
  obtain ⟨hentries, hrefused, bytes, s', htext, hload, hsame, -⟩ := settings_survive hs
  have hheld : s.journals.entries = [(odd, config)] := by decide +kernel
  refine ⟨hs, hheld, (hentries (odd, config) ?_).1, hrefused "**" config (.invalidPattern "**") _ ?_, bytes, htext, ?_⟩
  · rw [hheld]
    exact List.mem_cons_self
  · rfl
  · rw [hload, hsame]

end Settings

end Changefeed
