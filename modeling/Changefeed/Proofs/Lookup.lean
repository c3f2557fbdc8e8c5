/-
Which settings an object has. Those under its own name, if there are any. Otherwise the name must have a wildcard, and the
object must be the text before the star, anything, and the text after it (`Fits`); of all the names that fit, the one with
the most bytes around the star counts, and of several with as many the first in the order of bytes (`Foremost`).

The search goes through the names in their order and keeps the first of the most specific ones. It looks at the two ends of
an object only, as bytes. That is enough: where the ends do not overlap there is something between them, and what is cut off
between bytes is cut off between characters.

Results:
- `fits_iff_bytes`: the test on the ends is a test on bytes;
- `score?_eq_some_iff`: it is passed exactly where the name fits, with the bytes around the star as the score;
- `bestMatch_leads`: the search gives the first of the most specific matches;
- `config?_eq_some_iff`, `config?_eq_none_iff`: what settings an object has, and when it has none;
- `config?_congr`: only the entries that fit an object matter to it;
- `register_ok_iff`: what is registered after a number of entries came in;
- `lookup_most_specific`: all of it, for settings whose entries pass the check.
-/
import Mathlib.Data.List.TakeWhile
import Changefeed.Proofs.ByteOrder
import Changefeed.Proofs.Entries
import Changefeed.Proofs.Persistence

namespace Changefeed

/-! ## The ends of a name -/

namespace Pattern

theorem length_encodeChar (c : Char) : (Utf8.encodeChar c).length = c.utf8Size := by
  have hvalue : c.toNat = c.val.toNat := rfl
  unfold Utf8.encodeChar Utf8.encodeNat Char.utf8Size
  simp only [UInt32.le_iff_toNat_le, hvalue]
  split_ifs <;> first | rfl | (simp at *; omega)

theorem length_encode (cs : List Char) : (Utf8.encode cs).length = bytes cs := by
  induction cs with
  | nil => rfl
  | cons c cs ih => rw [Utf8.encode_cons, List.length_append, length_encodeChar, ih, bytes]

/-- **The test on the ends of an object is a test on its bytes.** -/
theorem fits_iff_bytes (before after name : List Char) :
    fits before after name = true ↔
      (Utf8.encode before).length + (Utf8.encode after).length ≤ (Utf8.encode name).length ∧
        Utf8.encode before <+: Utf8.encode name ∧ Utf8.encode after <:+ Utf8.encode name := by
  simp only [fits, Bool.and_eq_true, decide_eq_true_eq, List.isPrefixOf_iff_prefix, List.isSuffixOf_iff_suffix,
    length_encode, Utf8.encode_prefix_iff, Utf8.encode_suffix_iff, and_assoc]

/-- the parts of a name are those around its first star -/
theorem parts?_eq_some_iff {pattern before after : List Char} :
    parts? pattern = some (before, after) ↔ pattern = before ++ '*' :: after ∧ '*' ∉ before := by
  have hwhole := List.takeWhile_append_dropWhile (p := fun c => decide (c ≠ '*')) (l := pattern)
  unfold parts?
  constructor
  · intro h
    split at h
    next => cases h
    next c rest hdrop =>
      cases h
      have hstar := List.head_dropWhile_not (fun c => decide (c ≠ '*')) (l := pattern) (hdrop ▸ List.cons_ne_nil c after)
      simp only [hdrop, List.head_cons] at hstar
      obtain rfl : c = '*' := of_not_not (of_decide_eq_false hstar)
      rw [hdrop] at hwhole
      refine ⟨hwhole.symm, fun hmem => ?_⟩
      have hne := List.mem_takeWhile_imp hmem
      simp at hne
  · rintro ⟨rfl, hnone⟩
    have hbefore : ∀ c ∈ before, decide (c ≠ '*') = true := fun c hc => decide_eq_true fun heq => hnone (heq ▸ hc)
    rw [List.dropWhile_append_of_pos hbefore, List.takeWhile_append_of_pos hbefore]
    simp

end Pattern

namespace Settings

/-- the object is the text before the star of the pattern, anything, and the text after it; these two take so many bytes -/
def Fits (pattern object : String) (size : ℕ) : Prop :=
  ∃ before between after : String, pattern = before ++ "*" ++ after ∧ object = before ++ between ++ after ∧
    size = (utf8 before).length + (utf8 after).length

theorem not_fits_of_plain {pattern object : String} {size : ℕ} (h : '*' ∉ pattern.toList) : ¬ Fits pattern object size := by
  rintro ⟨before, between, after, rfl, -⟩
  simp at h

/-- **A name with at most one star scores exactly where it fits**, and as many as the bytes around its star. -/
theorem score?_eq_some_iff {pattern object : String} {size : ℕ} (h : pattern.toList.count '*' ≤ 1) :
    Pattern.score? pattern object = some size ↔ Fits pattern object size := by
  unfold Pattern.score?
  constructor
  · intro hscore
    split at hscore
    next => cases hscore
    next before after hparts =>
      obtain ⟨hpattern, -⟩ := Pattern.parts?_eq_some_iff.1 hparts
      split at hscore
      next hfits =>
        cases hscore
        obtain ⟨between, hobject⟩ := (Pattern.fits_iff_matches before after object.toList).1 hfits
        refine ⟨.ofList before, .ofList between, .ofList after, ?_, ?_, ?_⟩
        · rw [← String.toList_inj, hpattern]
          simp
        · rw [← String.toList_inj, hobject]
          simp
        · simp [utf8, Pattern.length_encode]
      next => cases hscore
  · rintro ⟨before, between, after, rfl, rfl, rfl⟩
    have hparts : Pattern.parts? (before ++ "*" ++ after).toList = some (before.toList, after.toList) := by
      refine Pattern.parts?_eq_some_iff.2 ⟨by simp, fun hmem => ?_⟩
      have hcount := List.count_pos_iff.2 hmem
      simp at h
      omega
    have hfits : Pattern.fits before.toList after.toList (before ++ between ++ after).toList = true :=
      (Pattern.fits_iff_matches _ _ _).2 ⟨between.toList, by simp⟩
    simp only [hparts, hfits, if_true, utf8, Pattern.length_encode]

/-! ## The search -/

/-- what the search has found among these entries: nothing that matches, or the first of the most specific matches -/
inductive Leads (object : String) (entries : List (String × JournalConfig)) : Option (ℕ × JournalConfig) → Prop
  | nothing (unmatched : ∀ e ∈ entries, Pattern.score? e.1 object = none) : Leads object entries none
  | match {before after : List (String × JournalConfig)} {pattern : String} {config : JournalConfig} {size : ℕ}
      (split : entries = before ++ (pattern, config) :: after) (score : Pattern.score? pattern object = some size)
      (earlier : ∀ e ∈ before, ∀ m, Pattern.score? e.1 object = some m → m < size)
      (later : ∀ e ∈ after, ∀ m, Pattern.score? e.1 object = some m → m ≤ size) :
      Leads object entries (some (size, config))

/-- an entry that is no more specific than what leads changes nothing -/
theorem Leads.keep {object : String} {entries : List (String × JournalConfig)} {best : Option (ℕ × JournalConfig)}
    (h : Leads object entries best) {e : String × JournalConfig}
    (hless : ∀ m, Pattern.score? e.1 object = some m → ∃ size config, best = some (size, config) ∧ m ≤ size) :
    Leads object (entries ++ [e]) best := by
  cases h with
  | nothing unmatched =>
    refine .nothing fun e' he' => ?_
    rcases List.mem_append.1 he' with he' | he'
    · exact unmatched e' he'
    · rw [List.mem_singleton.1 he']
      cases hscore : Pattern.score? e.1 object with
      | none => rfl
      | some m =>
        obtain ⟨_, _, hbest, -⟩ := hless m hscore
        cases hbest
  | @«match» before after pattern config size split score earlier later =>
    have hsplit : entries ++ [e] = before ++ (pattern, config) :: (after ++ [e]) := by simp [split]
    refine .match hsplit score earlier fun e' he' m hm => ?_
    rcases List.mem_append.1 he' with he' | he'
    · exact later e' he' m hm
    · rw [List.mem_singleton.1 he'] at hm
      obtain ⟨_, _, hbest, hle⟩ := hless m hm
      cases hbest
      exact hle

/-- an entry that is more specific than what leads, and so than all that this led, leads -/
theorem Leads.overtake {object : String} {entries : List (String × JournalConfig)} {best : Option (ℕ × JournalConfig)}
    (h : Leads object entries best) {e : String × JournalConfig} {score : ℕ}
    (hscore : Pattern.score? e.1 object = some score) (hmore : ∀ size config, best = some (size, config) → size < score) :
    Leads object (entries ++ [e]) (some (score, e.2)) := by
  have hsplit : entries ++ [e] = entries ++ (e.1, e.2) :: [] := rfl
  refine .match hsplit hscore (fun e' he' m hm => ?_) (by simp)
  cases h with
  | nothing unmatched =>
    rw [unmatched e' he'] at hm
    cases hm
  | @«match» before after pattern config size split scored earlier later =>
    have hle : m ≤ size := by
      rw [split] at he'
      rcases List.mem_append.1 he' with he' | he'
      · exact (earlier e' he' m hm).le
      · rcases List.mem_cons.1 he' with rfl | he'
        · exact (Option.some.inj (scored.symm.trans hm)).ge
        · exact later e' he' m hm
    exact hle.trans_lt (hmore size config rfl)

theorem bestMatch_unmatched {object : String} {e : String × JournalConfig} (h : Pattern.score? e.1 object = none)
    (entries : List (String × JournalConfig)) : bestMatch object (entries ++ [e]) = bestMatch object entries := by
  simp [bestMatch, List.foldl_append, h]

theorem bestMatch_matched {object : String} {e : String × JournalConfig} {score : ℕ}
    (h : Pattern.score? e.1 object = some score) (entries : List (String × JournalConfig)) :
    bestMatch object (entries ++ [e]) = better (bestMatch object entries) score e.2 := by
  simp [bestMatch, List.foldl_append, h]

/-- **The search finds the first of the most specific matches.** -/
theorem bestMatch_leads (object : String) (entries : List (String × JournalConfig)) :
    Leads object entries (bestMatch object entries) := by
  induction entries using List.reverseRecOn with
  | nil => exact .nothing (by simp)
  | append_singleton entries e ih =>
    cases hscore : Pattern.score? e.1 object with
    | none =>
      rw [bestMatch_unmatched hscore]
      exact ih.keep (by simp [hscore])
    | some score =>
      rw [bestMatch_matched hscore]
      generalize bestMatch object entries = best at ih
      unfold better
      split
      next size config =>
        split
        next hmore => exact ih.overtake hscore (by rintro _ _ ⟨⟩; exact hmore)
        next hless =>
          refine ih.keep fun m hm => ⟨size, config, rfl, ?_⟩
          cases hscore.symm.trans hm
          exact not_lt.1 hless
      next => exact ih.overtake hscore (by simp)

/-! ## What settings an object has -/

/-- among the entries that fit the object this one is the most specific, and of those that are as specific the first in the
order of bytes -/
structure Foremost (s : Settings) (object pattern : String) (config : JournalConfig) (size : ℕ) : Prop where
  entry : (pattern, config) ∈ s.journals.entries
  fits : Fits pattern object size
  first : ∀ e ∈ s.journals.entries, ∀ m, Fits e.1 object m →
    m < size ∨ (m = size ∧ (e.1 = pattern ∨ utf8 pattern < utf8 e.1))

theorem Foremost.unique {s : Settings} {object pattern pattern' : String} {config config' : JournalConfig} {size size' : ℕ}
    (h : Foremost s object pattern config size) (h' : Foremost s object pattern' config' size') : config = config' := by
  have hname : pattern = pattern' := by
    rcases h.first _ h'.entry _ h'.fits with hless | ⟨-, heq | hafter⟩
    · rcases h'.first _ h.entry _ h.fits with hless' | ⟨heq, -⟩ <;> omega
    · exact heq.symm
    · rcases h'.first _ h.entry _ h.fits with hless' | ⟨-, heq | hafter'⟩
      · rcases h.first _ h'.entry _ h'.fits with hless | ⟨heq, -⟩ <;> omega
      · exact heq
      · exact absurd (utf8_lt_iff.1 hafter') (String.lt_asymm (utf8_lt_iff.1 hafter))
  exact congrArg Prod.snd (s.journals.entry_unique h.entry h'.entry hname)

section
variable {s : Settings} (hs : s.Valid) {object : String}
include hs

theorem Valid.score?_iff {e : String × JournalConfig} (he : e ∈ s.journals.entries) {size : ℕ} :
    Pattern.score? e.1 object = some size ↔ Fits e.1 object size :=
  score?_eq_some_iff (check_ok_iff.1 (hs e he)).1

theorem Valid.foremost_of_leads {config : JournalConfig} {size : ℕ}
    (h : Leads object s.journals.entries (some (size, config))) : ∃ pattern, Foremost s object pattern config size := by
  cases h with
  | @«match» before after pattern _ _ split score earlier later =>
    have hmem : ∀ e, e ∈ s.journals.entries ↔ e ∈ before ∨ e = (pattern, config) ∨ e ∈ after := by simp [split]
    have hentry : (pattern, config) ∈ s.journals.entries := (hmem _).2 (.inr (.inl rfl))
    refine ⟨pattern, hentry, (hs.score?_iff hentry).1 score, fun e he m hm => ?_⟩
    have hscore : Pattern.score? e.1 object = some m := (hs.score?_iff he).2 hm
    rcases (hmem e).1 he with hbefore | rfl | hafter
    · exact .inl (earlier e hbefore m hscore)
    · exact .inr ⟨Option.some.inj (hscore.symm.trans score), .inl rfl⟩
    · -- what stands behind an entry has a later name
      have hlater : pattern < e.1 :=
        (List.pairwise_cons.1 (List.pairwise_append.1 (split ▸ s.journals.sorted)).2.1).1 e hafter
      exact (later e hafter m hscore).lt_or_eq.imp_right fun heq => ⟨heq, .inr (utf8_lt_iff.2 hlater)⟩

/-- **An object has the settings under its own name, or else those of the foremost entry that fits it.** -/
theorem Valid.config?_eq_some_iff {config : JournalConfig} :
    s.config? object = some config ↔ (object, config) ∈ s.journals.entries ∨
      ((∀ other, (object, other) ∉ s.journals.entries) ∧ ∃ pattern size, Foremost s object pattern config size) := by
  have hleads := bestMatch_leads object s.journals.entries
  unfold config?
  cases hown : s.journals.find? object with
  | some own =>
    have hentry : (object, own) ∈ s.journals.entries := Directory.find?_eq_some_iff.1 hown
    constructor
    · rintro ⟨⟩
      exact .inl hentry
    · rintro (h | ⟨hnone, -⟩)
      · exact congrArg (some ·.2) (s.journals.entry_unique hentry h rfl)
      · exact absurd hentry (hnone own)
  | none =>
    have hnone := Directory.find?_eq_none_iff.1 hown
    rw [or_iff_right (hnone config), and_iff_right hnone]
    constructor
    · intro h
      obtain ⟨⟨size, config⟩, hbest, rfl⟩ := Option.map_eq_some_iff.1 h
      obtain ⟨pattern, hfirst⟩ := hs.foremost_of_leads (hbest ▸ hleads)
      exact ⟨pattern, size, hfirst⟩
    · rintro ⟨pattern, size, hfirst⟩
      cases hbest : bestMatch object s.journals.entries with
      | none =>
        rw [hbest] at hleads
        obtain ⟨unmatched⟩ := hleads
        have hscore := (hs.score?_iff hfirst.entry).2 hfirst.fits
        rw [unmatched _ hfirst.entry] at hscore
        cases hscore
      | some best =>
        obtain ⟨pattern', hfirst'⟩ := hs.foremost_of_leads (hbest ▸ hleads : Leads _ _ (some (best.1, best.2)))
        exact congrArg some (hfirst'.unique hfirst)

/-- an object has none exactly if no entry has its name or fits it -/
theorem Valid.config?_eq_none_iff :
    s.config? object = none ↔ ∀ e ∈ s.journals.entries, e.1 ≠ object ∧ ∀ size, ¬ Fits e.1 object size := by
  have hleads := bestMatch_leads object s.journals.entries
  unfold config?
  cases hown : s.journals.find? object with
  | some own =>
    refine iff_of_false (by simp) fun h => ?_
    exact (h _ (Directory.find?_eq_some_iff.1 hown)).1 rfl
  | none =>
    have hne : ∀ e ∈ s.journals.entries, e.1 ≠ object := by
      rintro e he rfl
      exact Directory.find?_eq_none_iff.1 hown e.2 he
    cases hbest : bestMatch object s.journals.entries with
    | none =>
      rw [hbest] at hleads
      obtain ⟨unmatched⟩ := hleads
      refine iff_of_true rfl fun e he => ⟨hne e he, fun size hfits => ?_⟩
      rw [← hs.score?_iff he, unmatched e he] at hfits
      cases hfits
    | some best =>
      obtain ⟨pattern, hfirst⟩ := hs.foremost_of_leads (hbest ▸ hleads : Leads _ _ (some (best.1, best.2)))
      exact iff_of_false (by simp) fun h => (h _ hfirst.entry).2 _ hfirst.fits

end

/-- **Only the entries under an object's name and those that fit it matter to it.** -/
theorem config?_congr {s s' : Settings} (hs : s.Valid) (hs' : s'.Valid) {object : String}
    (h : ∀ e : String × JournalConfig, (e.1 = object ∨ ∃ size, Fits e.1 object size) →
      (e ∈ s'.journals.entries ↔ e ∈ s.journals.entries)) : s'.config? object = s.config? object := by
  have hforemost : ∀ {pattern config size},
      Foremost s' object pattern config size ↔ Foremost s object pattern config size := by
    intro pattern config size
    constructor
    · rintro ⟨hentry, hfits, hfirst⟩
      exact ⟨(h _ (.inr ⟨size, hfits⟩)).1 hentry, hfits, fun e he m hm => hfirst e ((h e (.inr ⟨m, hm⟩)).2 he) m hm⟩
    · rintro ⟨hentry, hfits, hfirst⟩
      exact ⟨(h _ (.inr ⟨size, hfits⟩)).2 hentry, hfits, fun e he m hm => hfirst e ((h e (.inr ⟨m, hm⟩)).1 he) m hm⟩
  refine Option.ext fun config => ?_
  rw [hs.config?_eq_some_iff, hs'.config?_eq_some_iff]
  simp only [hforemost, h (object, _) (.inl rfl)]

/-! ## How the entries came in -/

/-- registers one entry after the other -/
def register (l : List (String × JournalConfig)) : Except ConfigError Settings := l.foldlM (fun s e => s.add e.1 e.2) empty

/-- **A registration succeeds exactly if every entry passes the check**, and then the last entry under each name is there. -/
theorem register_ok_iff {l : List (String × JournalConfig)} {s : Settings} :
    register l = .ok s ↔ (∀ e ∈ l, check e.1 e.2 = .ok ()) ∧ s = ⟨Directory.ofList l⟩ := by
  have hrun : ∀ (l : List (String × JournalConfig)) (s s' : Settings), l.foldlM (fun s e => s.add e.1 e.2) s = .ok s' ↔
      (∀ e ∈ l, check e.1 e.2 = .ok ()) ∧ s' = ⟨l.foldl (fun d e => d.insert e.1 e.2) s.journals⟩ := by
    intro l
    induction l with
    | nil =>
      intro s s'
      constructor
      · rintro ⟨⟩
        exact ⟨by simp, rfl⟩
      · rintro ⟨-, rfl⟩
        rfl
    | cons e l ih =>
      intro s s'
      rw [List.foldlM_cons, List.forall_mem_cons]
      cases hadd : s.add e.1 e.2 with
      | error err =>
        refine iff_of_false (fun h => by cases h) fun h => ?_
        rw [add_ok_iff.2 ⟨h.1.1, rfl⟩] at hadd
        cases hadd
      | ok s1 =>
        obtain ⟨hcheck, rfl⟩ := add_ok_iff.1 hadd
        rw [and_iff_right hcheck]
        exact ih ⟨s.journals.insert e.1 e.2⟩ s'
  exact hrun l empty s

theorem valid_register {l : List (String × JournalConfig)} {s : Settings} (h : register l = .ok s) : s.Valid := by
  obtain ⟨hcheck, rfl⟩ := register_ok_iff.1 h
  intro e he
  obtain ⟨before, after, rfl, -⟩ := Directory.mem_ofList_iff.1 he
  exact hcheck e (by simp)

/-- **An object has the settings of the most specific entry.** Those under its own name; otherwise, of the entries whose text
before the star and whose text after it stand at its two ends without sharing a character, those of the one with the most
bytes in these texts, and of several with as many of the first in the order of bytes; and none exactly if no entry has its
name or fits it. It makes no difference that the ends are compared as bytes. A name without a star is for the object of this
name alone; entries that do not fit an object do not matter to it; and it does not matter in which order entries came in. -/
theorem lookup_most_specific {s : Settings} (hs : s.Valid) (object : String) :
    (∀ config, (object, config) ∈ s.journals.entries → s.config? object = some config) ∧
    ((∀ config, (object, config) ∉ s.journals.entries) →
      ∀ config, s.config? object = some config ↔ ∃ pattern size, Foremost s object pattern config size) ∧
    (s.config? object = none ↔ ∀ e ∈ s.journals.entries, e.1 ≠ object ∧ ∀ size, ¬ Fits e.1 object size) ∧
    (∀ (before after : String) (between : Bytes), utf8 object = utf8 before ++ between ++ utf8 after →
      Fits (before ++ "*" ++ after) object ((utf8 before).length + (utf8 after).length)) ∧
    (∀ name config s', '*' ∉ name.toList → name ≠ object → s.add name config = .ok s' →
      s'.config? object = s.config? object) ∧
    (∀ s' : Settings, s'.Valid →
      (∀ e : String × JournalConfig, (e.1 = object ∨ ∃ size, Fits e.1 object size) →
        (e ∈ s'.journals.entries ↔ e ∈ s.journals.entries)) →
      s'.config? object = s.config? object) ∧
    ∀ (l l' : List (String × JournalConfig)) (s' : Settings), register l = .ok s → register l' = .ok s' →
      (∀ name config, Directory.Prevails l' name config ↔ Directory.Prevails l name config) →
      s'.config? object = s.config? object := by
  refine ⟨fun config h => hs.config?_eq_some_iff.2 (.inl h), fun hnone config => ?_, hs.config?_eq_none_iff, ?_, ?_,
    fun s' hs' h => config?_congr hs hs' h, fun l l' s' h h' hsame => ?_⟩
  · rw [hs.config?_eq_some_iff, or_iff_right (hnone config), and_iff_right hnone]
  · intro before after between hobject
    have hfits : Pattern.fits before.toList after.toList object.toList = true := by
      refine (Pattern.fits_iff_bytes _ _ _).2 ⟨?_, ⟨between ++ utf8 after, ?_⟩, ⟨utf8 before ++ between, hobject.symm⟩⟩
      · have hlength := congrArg List.length hobject
        simp only [List.length_append] at hlength
        show (utf8 before).length + (utf8 after).length ≤ (utf8 object).length
        omega
      · rw [← List.append_assoc]
        exact hobject.symm
    obtain ⟨mid, hmid⟩ := (Pattern.fits_iff_matches _ _ _).1 hfits
    exact ⟨before, .ofList mid, after, rfl, by rw [← String.toList_inj, hmid]; simp, rfl⟩
  · intro name config s' hplain hne hadd
    refine config?_congr hs (valid_add hs hadd) fun e he => ?_
    obtain ⟨-, rfl⟩ := add_ok_iff.1 hadd
    have hother : e.1 ≠ name := by
      rintro rfl
      rcases he with heq | ⟨size, hfits⟩
      · exact hne heq
      · exact not_fits_of_plain hplain hfits
    rw [Directory.mem_insert_iff, or_iff_right (fun heq => hother (congrArg Prod.fst heq)), and_iff_right hother]
  · refine config?_congr hs (valid_register h') fun e _ => ?_
    obtain ⟨-, rfl⟩ := register_ok_iff.1 h
    obtain ⟨-, rfl⟩ := register_ok_iff.1 h'
    exact Directory.mem_ofList_iff.trans ((hsame e.1 e.2).trans Directory.mem_ofList_iff.symm)

/-- `ab` and `ba` would overlap in `aba`; of the two entries that fit it and are equally specific `*ba` is first, though it
was registered last -/
theorem lookup_most_specific_tie :
    let s : Settings := ⟨Directory.ofList
      [("ab*", .ofCapacity 1), ("ab*ba", .ofCapacity 2), ("ö*", .ofCapacity 3), ("*ba", .ofCapacity 4)]⟩
    s.Valid ∧ Foremost s "aba" "*ba" (.ofCapacity 4) 2 ∧ s.config? "aba" = some (.ofCapacity 4) := by
  intro s
  have hs : s.Valid := by
    intro e he
    refine check_ok_iff.2 ?_
    revert e he
    decide +kernel
  have hentry : ("*ba", .ofCapacity 4) ∈ s.journals.entries := by decide +kernel
  have hnone : ∀ config, ("aba", config) ∉ s.journals.entries := by
    have hnames : ∀ e ∈ s.journals.entries, e.1 ≠ "aba" := by decide +kernel
    exact fun config hmem => hnames _ hmem rfl
  have hscores : ∀ e ∈ s.journals.entries, ∀ m ∈ Pattern.score? e.1 "aba", m = 2 ∧ (e.1 = "*ba" ∨ "*ba" < e.1) := by
    decide +kernel
  have hfirst : Foremost s "aba" "*ba" (.ofCapacity 4) 2 := by
    refine ⟨hentry, (hs.score?_iff hentry).1 (by decide +kernel), fun e he m hm => ?_⟩
    rw [utf8_lt_iff]
    exact .inr (hscores e he m ((hs.score?_iff he).2 hm))
  exact ⟨hs, hfirst, ((lookup_most_specific hs "aba").2.1 hnone _).2 ⟨"*ba", 2, hfirst⟩⟩

end Settings

end Changefeed
