/-
What a text says about journals, and what is wrong with it. A settings document lists entries (`Lists`): names, and the
settings that are described there by the fields that are given (`DescribedBy`). Of several entries under one name the last
one prevails. An entry offends if its name has two stars, or else if its journal is enabled without room (`Offends`).

There are two ways to read a text. One reads all of it and then looks at the entries, the other looks at them before it sees
whether the text ends there. They can differ in what they say of a text that goes on after the document, but not in the
settings they give, and what the first one says of invalid settings the second one says too.

Results:
- `lists_iff`: what a text lists is what is read from it;
- `check_error_iff`: what offends is what the check refuses, and how;
- `forM_error_iff`: a check of one entry after the other fails with the first refusal;
- `load_error_iff`: which texts have invalid settings, and which entry is named;
- `settle_message`: a refusal ends with no place, so its text stays as it is;
- `loaders_agree`: the two ways against each other, and the first against what the text says.
-/
import Changefeed.Proofs.ByteOrder
import Changefeed.Proofs.Entries
import Changefeed.Proofs.Persistence

namespace Changefeed

open Json (Doc OfDoc ofDoc?)

/-! ## What a document says -/

namespace Json

theorem Doc.length_fields? {names : List String} {short : Bool} {t : Doc} {fields : List (Option Doc)}
    (h : t.fields? names short = some fields) : fields.length = names.length := by
  unfold Doc.fields? at h
  split at h
  next =>
    split at h
    · cases h
      simp
    · cases h
  next =>
    obtain ⟨named, -, hfields⟩ := Option.bind_eq_some_iff.1 h
    exact (mapM_eq_some_iff.1 hfields).length_eq.symm
  next => cases h

/-- the field holds this value, or it is not given and the value is the one it has then -/
inductive Gives {α : Type} [OfDoc α] (value : α) : Option Doc → α → Prop
  | missing : Gives value none value
  | given {t : Doc} {a : α} (read : ofDoc? t = some a) : Gives value (some t) a

theorem gives_iff {α : Type} [OfDoc α] {value a : α} {field : Option Doc} :
    Gives value field a ↔ withDefault value field = some a := by
  constructor
  · rintro (_ | hread)
    · rfl
    · exact hread
  · cases field with
    | none =>
      rintro ⟨⟩
      exact .missing
    | some t => exact .given

/-- a directory is read from an object, whose members are read one by one -/
theorem ofDoc?_directory_iff {α : Type} [OfDoc α] {t : Doc} {d : Directory α} :
    ofDoc? t = some d ↔ ∃ members entries, t = .object members ∧ d = Directory.ofList entries ∧
      List.Forall₂ (fun m e => Quoted.decode? m.1 = some e.1 ∧ ofDoc? m.2 = some e.2) members entries := by
  have hentry : ∀ (m : Bytes × Doc) (e : String × α), (do return (← Quoted.decode? m.1, ← ofDoc? m.2)) = some e ↔
      Quoted.decode? m.1 = some e.1 ∧ ofDoc? m.2 = some e.2 := by
    rintro m ⟨name, a⟩
    simp [Option.bind_eq_some_iff]
  simp only [← hentry, ← mapM_eq_some_iff]
  constructor
  · intro h
    cases t with
    | object members =>
      obtain ⟨entries, hread, hd⟩ := Option.bind_eq_some_iff.1 h
      exact ⟨members, entries, rfl, (Option.some.inj hd).symm, hread⟩
    | _ => cases h
  · rintro ⟨members, entries, rfl, rfl, hread⟩
    exact Option.bind_eq_some_iff.2 ⟨entries, hread, rfl⟩

end Json

/-- these are the settings that the document describes: each of the three fields is given once or has its default -/
def JournalConfig.DescribedBy (config : JournalConfig) (t : Doc) : Prop :=
  ∃ enabled capacity ttl : Option Doc,
    t.fields? ["enabled", "capacity", "time_to_live_seconds"] true = some [enabled, capacity, ttl] ∧
      Json.Gives false enabled config.enabled ∧ Json.Gives 10000 capacity config.capacity ∧
      Json.Gives 0 ttl config.ttlSeconds

theorem JournalConfig.describedBy_iff {config : JournalConfig} {t : Doc} :
    config.DescribedBy t ↔ ofDoc? t = some config := by
  simp only [DescribedBy, Json.gives_iff]
  constructor
  · rintro ⟨enabled, capacity, ttl, hfields, henabled, hcapacity, httl⟩
    show (t.fields? ["enabled", "capacity", "time_to_live_seconds"] true).bind _ = some config
    rw [hfields]
    show (Json.withDefault false enabled).bind _ = some config
    simp only [henabled, hcapacity, httl, Option.bind_eq_bind, Option.bind_some]
    rfl
  · intro h
    have hbind : (t.fields? ["enabled", "capacity", "time_to_live_seconds"] true).bind _ = some config := h
    obtain ⟨fields, hfields, hvalues⟩ := Option.bind_eq_some_iff.1 hbind
    obtain ⟨enabled, capacity, ttl, rfl⟩ := List.length_eq_three.1 (Doc.length_fields? hfields)
    refine ⟨enabled, capacity, ttl, hfields, ?_⟩
    simp only [Option.bind_eq_bind, Option.bind_eq_some_iff, Option.pure_def, Option.some.injEq] at hvalues
    obtain ⟨_, henabled, _, hcapacity, _, httl, rfl⟩ := hvalues
    exact ⟨henabled, hcapacity, httl⟩

namespace Settings

/-- the text is a settings document that lists these entries, one after the other -/
inductive Lists (text : Bytes) : List (String × JournalConfig) → Prop
  | nothing {t : Doc} (document : Json.scan text = .document t) (field : t.fields? ["journals"] true = some [none]) :
      Lists text []
  | journals {t : Doc} {members : List (Bytes × Doc)} {entries : List (String × JournalConfig)}
      (document : Json.scan text = .document t) (field : t.fields? ["journals"] true = some [some (.object members)])
      (read : List.Forall₂ (fun m e => Json.Quoted.decode? m.1 = some e.1 ∧ e.2.DescribedBy m.2) members entries) :
      Lists text entries

theorem ofDoc?_iff {t : Doc} {d : Directory JournalConfig} :
    Settings.ofDoc? t = some ⟨d⟩ ↔
      ∃ field, t.fields? ["journals"] true = some [field] ∧ Json.withDefault Directory.empty field = some d := by
  constructor
  · intro h
    have hbind : (t.fields? ["journals"] true).bind _ = some (Settings.mk d) := h
    obtain ⟨fields, hfields, hvalue⟩ := Option.bind_eq_some_iff.1 hbind
    obtain ⟨field, rfl⟩ := List.length_eq_one_iff.1 (Doc.length_fields? hfields)
    obtain ⟨d', hgives, heq⟩ := Option.bind_eq_some_iff.1 hvalue
    cases heq
    exact ⟨field, hfields, hgives⟩
  · rintro ⟨field, hfields, hgives⟩
    show (t.fields? ["journals"] true).bind _ = some (Settings.mk d)
    rw [hfields]
    show (Json.withDefault Directory.empty field).bind _ = some (Settings.mk d)
    rw [hgives]
    rfl

/-- **What a text lists is what is read from it.** -/
theorem lists_iff {text : Bytes} {d : Directory JournalConfig} :
    (∃ entries, Lists text entries ∧ d = Directory.ofList entries) ↔
      ∃ t, Json.scan text = .document t ∧ Settings.ofDoc? t = some ⟨d⟩ := by
  simp only [ofDoc?_iff]
  constructor
  · rintro ⟨entries, hlists, rfl⟩
    cases hlists with
    | nothing document field => exact ⟨_, document, none, field, rfl⟩
    | journals document field read =>
      refine ⟨_, document, _, field, Json.ofDoc?_directory_iff.2 ⟨_, entries, rfl, rfl, ?_⟩⟩
      exact read.imp fun m e h => ⟨h.1, JournalConfig.describedBy_iff.1 h.2⟩
  · rintro ⟨t, document, field, hfield, hgives⟩
    cases field with
    | none =>
      cases hgives
      exact ⟨[], .nothing document hfield, rfl⟩
    | some journals =>
      obtain ⟨members, entries, rfl, rfl, hread⟩ := Json.ofDoc?_directory_iff.1 hgives
      refine ⟨entries, .journals document hfield ?_, rfl⟩
      exact hread.imp fun m e h => ⟨h.1, JournalConfig.describedBy_iff.2 h.2⟩

/-! ## What is wrong with it -/

/-- what is wrong with an entry, where the stars of its name come before the room of its journal -/
inductive Offends (name : String) (config : JournalConfig) : ConfigError → Prop
  | wildcards (many : 1 < name.toList.count '*') : Offends name config (.invalidPattern name)
  | capacity (few : name.toList.count '*' ≤ 1) (enabled : config.enabled = true) (room : config.capacity = 0) :
      Offends name config (.invalid name "capacity must be positive")

/-- **What offends is what the check refuses**, and this is how. -/
theorem check_error_iff {name : String} {config : JournalConfig} {e : ConfigError} :
    check name config = .error e ↔ Offends name config e := by
  unfold check checkName JournalConfig.validate
  constructor
  · intro h
    split at h
    next hmany =>
      cases h
      exact .wildcards hmany
    next hfew =>
      split at h
      next hbad =>
        cases h
        exact .capacity (by omega) hbad.1 hbad.2
      next => cases h
  · rintro (hmany | ⟨hfew, henabled, hroom⟩)
    · rw [if_pos hmany]
      rfl
    · rw [if_neg (by omega), if_pos ⟨henabled, hroom⟩]
      rfl

/-- a check of one element after the other fails with the first refusal -/
theorem forM_error_iff {α ε : Type} {f : α → Except ε PUnit} {l : List α} {e : ε} :
    l.forM f = .error e ↔ ∃ before a after, l = before ++ a :: after ∧ (∀ b ∈ before, f b = .ok ()) ∧ f a = .error e := by
  induction l with
  | nil => exact iff_of_false (fun h => by cases h) fun ⟨_, _, _, h, _⟩ => by simp at h
  | cons b l ih =>
    have hrun : (b :: l).forM f = f b >>= fun _ => l.forM f := rfl
    rw [hrun]
    cases hb : f b with
    | error e' =>
      constructor
      · rintro ⟨⟩
        exact ⟨[], b, l, rfl, by simp, hb⟩
      · rintro ⟨before, a, after, hsplit, hpass, hfail⟩
        rcases List.cons_eq_append_iff.1 hsplit with ⟨rfl, hhead⟩ | ⟨before', rfl, -⟩
        · cases hhead
          exact congrArg Except.error (Except.error.inj (hb.symm.trans hfail))
        · cases hb.symm.trans (hpass b List.mem_cons_self)
    | ok u =>
      refine Iff.trans ih ⟨?_, ?_⟩
      · rintro ⟨before, a, after, rfl, hpass, hfail⟩
        exact ⟨b :: before, a, after, rfl, List.forall_mem_cons.2 ⟨hb, hpass⟩, hfail⟩
      · rintro ⟨before, a, after, hsplit, hpass, hfail⟩
        rcases List.cons_eq_append_iff.1 hsplit with ⟨rfl, hhead⟩ | ⟨before', rfl, rfl⟩
        · cases hhead
          cases hb.symm.trans hfail
        · exact ⟨before', a, after, rfl, fun x hx => hpass x (List.mem_cons_of_mem _ hx), hfail⟩

/-- **Settings are refused for the first entry that offends.** -/
theorem validate_error_iff {s : Settings} {e : ConfigError} :
    validate s = .error e ↔ ∃ entry ∈ s.journals.entries, Offends entry.1 entry.2 e ∧
      ∀ other ∈ s.journals.entries, utf8 other.1 < utf8 entry.1 → ∀ e', ¬ Offends other.1 other.2 e' := by
  have hfirst : validate s = .error e ↔
      s.journals.entries.forM (fun entry : String × JournalConfig => check entry.1 entry.2) = .error e := by
    unfold validate
    cases s.journals.entries.forM fun entry : String × JournalConfig => check entry.1 entry.2 with
    | error e' => exact ⟨fun h => by cases h; rfl, fun h => by cases h; rfl⟩
    | ok u => exact iff_of_false (fun h => by cases h) fun h => by cases h
  have hpass : ∀ b : String × JournalConfig, check b.1 b.2 = .ok () ↔ ∀ e', ¬ Offends b.1 b.2 e' := by
    intro b
    simp only [← check_error_iff]
    cases check b.1 b.2 with
    | error e' => simp
    | ok u => simp
  rw [hfirst, forM_error_iff]
  simp only [hpass, check_error_iff, utf8_lt_iff]
  constructor
  · rintro ⟨before, entry, after, hsplit, hbefore, hoffends⟩
    refine ⟨entry, by simp [hsplit], hoffends, fun other hother hlt => ?_⟩
    have hsorted := List.pairwise_append.1 (hsplit ▸ s.journals.sorted)
    rw [hsplit] at hother
    rcases List.mem_append.1 hother with hother | hother
    · exact hbefore other hother
    · rcases List.mem_cons.1 hother with rfl | hother
      · exact absurd hlt (String.lt_irrefl _)
      · exact absurd ((List.pairwise_cons.1 hsorted.2.1).1 other hother) (String.lt_asymm hlt)
  · rintro ⟨entry, hentry, hoffends, hothers⟩
    obtain ⟨before, after, hsplit⟩ := List.append_of_mem hentry
    refine ⟨before, entry, after, hsplit, fun other hother => ?_, hoffends⟩
    have hsorted := List.pairwise_append.1 (hsplit ▸ s.journals.sorted)
    exact hothers other (by simp [hsplit, hother]) (hsorted.2.2 other hother entry List.mem_cons_self)

/-! ## The two ways to read it -/

/-- what a text lists is checked -/
theorem load_of_lists {text : Bytes} {entries : List (String × JournalConfig)} (h : Lists text entries) :
    load text = validate ⟨Directory.ofList entries⟩ := by
  obtain ⟨t, hscan, hread⟩ := lists_iff.1 ⟨entries, h, rfl⟩
  simp only [load, hscan, ofDocument, hread]

/-- a text that lists nothing is malformed -/
theorem load_of_not_lists {text : Bytes} (h : ∀ entries, ¬ Lists text entries) : load text = .error .malformed := by
  unfold load
  split
  next t hscan =>
    unfold ofDocument
    cases hread : Settings.ofDoc? t with
    | none => rfl
    | some s =>
      obtain ⟨entries, hlists, -⟩ := lists_iff.2 ⟨t, hscan, hread⟩
      exact absurd hlists (h entries)
  next => rfl

/-- **A text is refused for what it says exactly if it lists an entry that offends**, and the first one of those that prevail
is named. -/
theorem load_error_iff {text : Bytes} {e : ConfigError} :
    load text = .error e ∧ e ≠ .malformed ↔ ∃ entries name config, Lists text entries ∧
      Directory.Prevails entries name config ∧ Offends name config e ∧
      ∀ name' config', Directory.Prevails entries name' config' → utf8 name' < utf8 name →
        ∀ e', ¬ Offends name' config' e' := by
  constructor
  · rintro ⟨hload, he⟩
    by_cases hlists : ∃ entries, Lists text entries
    · obtain ⟨entries, hlists⟩ := hlists
      rw [load_of_lists hlists] at hload
      obtain ⟨⟨name, config⟩, hentry, hoffends, hfirst⟩ := validate_error_iff.1 hload
      refine ⟨entries, name, config, hlists, Directory.mem_ofList_iff.1 hentry, hoffends, fun name' config' hother => ?_⟩
      exact hfirst (name', config') (Directory.mem_ofList_iff.2 hother)
    · rw [load_of_not_lists (not_exists.1 hlists)] at hload
      exact absurd (Except.error.inj hload).symm he
  · rintro ⟨entries, name, config, hlists, hentry, hoffends, hfirst⟩
    refine ⟨?_, by rintro rfl; cases hoffends⟩
    rw [load_of_lists hlists]
    refine validate_error_iff.2 ⟨(name, config), Directory.mem_ofList_iff.2 hentry, hoffends, fun other hother => ?_⟩
    exact hfirst other.1 other.2 (Directory.mem_ofList_iff.1 hother)

/-- a refusal does not end in a digit, so no place is found in it -/
theorem Offends.settle_message {name : String} {config : JournalConfig} {e : ConfigError} (h : Offends name config e) :
    Json.Place.settle e.message = e.message := by
  cases h with
  | wildcards many =>
    have hlast : " contains more than one '*'".toList.getLast? = some '\'' := by decide +kernel
    exact Json.Place.settle_append_of_getLast? ("journal name pattern " ++ name) hlast (by decide)
  | capacity few enabled room =>
    have hlast : "capacity must be positive".toList.getLast? = some 'e' := by decide +kernel
    exact Json.Place.settle_append_of_getLast? _ hlast (by decide)

theorem loadEager_of_load_error {text : Bytes} {e : ConfigError} (h : load text = .error e) (he : e ≠ .malformed) :
    loadEager text = .error e := by
  unfold load at h
  unfold loadEager
  cases hscan : Json.scan text with
  | document t =>
    rw [hscan] at h
    exact h
  | trailing t =>
    rw [hscan] at h
    exact absurd (Except.error.inj h).symm he
  | malformed =>
    rw [hscan] at h
    exact absurd (Except.error.inj h).symm he

/-- **The two ways to read a text agree.** They give the same settings for the same texts; and what the first one says of
invalid settings is all that the second one says. The first one finds settings invalid exactly if the whole text is a
settings document in which, of the entries that prevail, some offend; and it names the one of them that is first in the
order of bytes, for the stars of its name if it has too many. -/
theorem loaders_agree (text : Bytes) :
    (∀ s, load text = .ok s ↔ decode text = .ok s) ∧
    (∀ e, load text = .error e → e ≠ .malformed → decode text = .error (.reason e.message)) ∧
    ((∃ e, load text = .error e ∧ e ≠ .malformed) ↔ ∃ entries, Lists text entries ∧
      ∃ name config e, Directory.Prevails entries name config ∧ Offends name config e) ∧
    ∀ e, load text = .error e ∧ e ≠ .malformed ↔ ∃ entries name config, Lists text entries ∧
      Directory.Prevails entries name config ∧ Offends name config e ∧
      ∀ name' config', Directory.Prevails entries name' config' → utf8 name' < utf8 name →
        ∀ e', ¬ Offends name' config' e' := by
  refine ⟨fun s => ?_, fun e hload he => ?_, ⟨?_, ?_⟩, fun e => load_error_iff⟩
  · rw [← loadEager_ok_iff, decode]
    cases loadEager text with
    | ok s' => simp [Except.mapError]
    | error e => simp [Except.mapError]
  · obtain ⟨entries, name, config, -, -, hoffends, -⟩ := load_error_iff.1 ⟨hload, he⟩
    have hreason : DecodeError.ofConfig e = .reason e.message := by
      rw [← hoffends.settle_message]
      cases hoffends <;> rfl
    rw [decode, loadEager_of_load_error hload he, Except.mapError, hreason]
  · rintro ⟨e, hload⟩
    obtain ⟨entries, name, config, hlists, hprevails, hoffends, -⟩ := load_error_iff.1 hload
    exact ⟨entries, hlists, name, config, e, hprevails, hoffends⟩
  · rintro ⟨entries, hlists, name, config, e, hprevails, hoffends⟩
    rw [load_of_lists hlists]
    cases hvalidate : validate ⟨Directory.ofList entries⟩ with
    | ok s =>
      have hcheck := (validate_ok_iff.1 hvalidate).2 (name, config) (Directory.mem_ofList_iff.2 hprevails)
      rw [check_error_iff.2 hoffends] at hcheck
      cases hcheck
    | error e' =>
      obtain ⟨entry, -, hoffends', -⟩ := validate_error_iff.1 hvalidate
      exact ⟨e', rfl, by rintro rfl; cases hoffends'⟩

/-- of two names that offend the first one in order is named, for its stars, though its journal has no room either and stands
behind the other one; a third one offended, before it was given once more -/
theorem loaders_agree_first :
    let text := utf8 "\x7b\"journals\":\x7b\"b\":[true,0],\"a**\":[true,0],\"a\":[true,0],\"a\":\x7b\x7d\x7d\x7d"
    load text = .error (.invalidPattern "a**") ∧
      decode text = .error (.reason "journal name pattern a** contains more than one '*'") ∧
      ∃ entries, Lists text entries ∧
        ∃ name config e, Directory.Prevails entries name config ∧ Offends name config e := by
  intro text
  have hload : load text = .error (.invalidPattern "a**") := by decide +kernel
  have he : ConfigError.invalidPattern "a**" ≠ .malformed := by decide
  obtain ⟨-, hreason, hsome, -⟩ := loaders_agree text
  exact ⟨hload, hreason _ hload he, hsome.1 ⟨_, hload, he⟩⟩

end Settings

end Changefeed
