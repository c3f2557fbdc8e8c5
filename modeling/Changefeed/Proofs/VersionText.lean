/-
What texts are versions. A version is two numbers around a point, with blanks before and behind. A number may have a plus
sign, and any number of zeros before its first digit that counts (`SpellsNumber`, `Spells`); the point between the numbers is
the first one, since no number has a point in it.

Results:
- `trim_append`, `trim_split`: trimming takes away all blanks at the ends and nothing else;
- `component?_eq_some_iff`: one number is read exactly where it is spelled;
- `parse?_eq_some_iff`: so is a version;
- `spells_text`: a version is spelled by its text;
- `parse_grammar`: what is read, what is refused, and how what was read compares.
-/
import Mathlib.Tactic
import Mathlib.Data.List.TakeWhile
import Mathlib.Data.Nat.Digits.Defs
import Mathlib.Data.Prod.Lex
import Changefeed.Version

namespace Changefeed

namespace Text

theorem trim_split (cs : List Char) : ∃ pre post, cs = pre ++ trim cs ++ post ∧
    (∀ c ∈ pre, isBlank c = true) ∧ ∀ c ∈ post, isBlank c = true := by
  let rest := cs.dropWhile isBlank
  refine ⟨cs.takeWhile isBlank, (rest.reverse.takeWhile isBlank).reverse, ?_, ?_, ?_⟩
  · have hrest : trim cs ++ (rest.reverse.takeWhile isBlank).reverse = rest := by
      rw [trim, ← List.reverse_append, List.takeWhile_append_dropWhile, List.reverse_reverse]
    rw [List.append_assoc, hrest, List.takeWhile_append_dropWhile]
  · exact fun c hc => List.mem_takeWhile_imp hc
  · exact fun c hc => List.mem_takeWhile_imp (List.mem_reverse.1 hc)

/-- **Trimming takes away the blanks around what neither begins nor ends with one.** -/
theorem trim_append {pre mid post : List Char} (hpre : ∀ c ∈ pre, isBlank c = true) (hpost : ∀ c ∈ post, isBlank c = true)
    (hhead : ∀ c ∈ mid.head?, isBlank c = false) (hlast : ∀ c ∈ mid.getLast?, isBlank c = false) (hmid : mid ≠ []) :
    trim (pre ++ mid ++ post) = mid := by
  have hstops : ∀ cs rest : List Char, cs ≠ [] → (∀ c ∈ cs.head?, isBlank c = false) →
      (cs ++ rest).dropWhile isBlank = cs ++ rest := by
    intro cs rest hne hc
    cases cs with
    | nil => exact absurd rfl hne
    | cons c cs =>
      have hc : isBlank c = false := hc c rfl
      rw [List.cons_append, List.dropWhile_cons_of_neg (by simp [hc])]
  have hfront : (pre ++ mid ++ post).dropWhile isBlank = mid ++ post := by
    rw [List.append_assoc, List.dropWhile_append_of_pos hpre, hstops mid post hmid hhead]
  have hback : (mid ++ post).reverse.dropWhile isBlank = mid.reverse := by
    have hrev := hstops mid.reverse [] (by simpa using hmid) (by simpa using hlast)
    rw [List.reverse_append, List.dropWhile_append_of_pos fun c hc => hpost c (List.mem_reverse.1 hc)]
    simpa using hrev
  rw [trim, hfront, hback, List.reverse_reverse]

end Text

namespace Version

/-- a character, taken as a decimal digit -/
def digit (c : Char) : ℕ := c.toNat - '0'.toNat

/-- the characters spell a number: decimal digits, at least one, which may have a plus sign before them -/
def SpellsNumber (cs : List Char) (n : UInt8) : Prop :=
  ∃ ds : List Char, (cs = ds ∨ cs = '+' :: ds) ∧ ds ≠ [] ∧ (∀ d ∈ ds, d.isDigit = true) ∧
    Nat.ofDigits 10 (ds.reverse.map digit) = n.toNat

/-- the text spells a version: its two numbers around a point, in blanks -/
def Spells (s : String) (v : Version) : Prop :=
  ∃ pre major minor post : List Char, s.toList = pre ++ (major ++ '.' :: minor) ++ post ∧
    (∀ c ∈ pre, Text.isBlank c = true) ∧ (∀ c ∈ post, Text.isBlank c = true) ∧
    SpellsNumber major v.major ∧ SpellsNumber minor v.minor

/-! ## One number -/

/-- the last digit counts once, and every digit ten times what the next one does -/
theorem number_eq_ofDigits (ds : List Char) : number ds = Nat.ofDigits 10 (ds.reverse.map digit) := by
  induction ds using List.reverseRecOn with
  | nil => rfl
  | append_singleton ds d ih =>
    rw [number, Nat.ofDigitChars_append, Nat.ofDigitChars_cons, Nat.ofDigitChars_nil, ← number, ih, List.reverse_append,
      List.reverse_singleton, List.singleton_append, List.map_cons, Nat.ofDigits_cons, ← digit, add_comm]

/-- a number is read exactly where it is spelled -/
theorem component?_eq_some_iff {cs : List Char} {n : UInt8} : component? cs = some n ↔ SpellsNumber cs n := by
  have hread : ∀ ds : List Char, (if ds ≠ [] ∧ ds.all Char.isDigit ∧ number ds < 256 then some (UInt8.ofNat (number ds))
      else none) = some n ↔ ds ≠ [] ∧ (∀ d ∈ ds, d.isDigit = true) ∧ Nat.ofDigits 10 (ds.reverse.map digit) = n.toNat := by
    intro ds
    rw [← number_eq_ofDigits]
    constructor
    · intro h
      split at h
      next hds =>
        obtain ⟨hne, hdigits, hlt⟩ := hds
        cases h
        exact ⟨hne, List.all_eq_true.1 hdigits, (UInt8.toNat_ofNat_of_lt' hlt).symm⟩
      next => cases h
    · rintro ⟨hne, hdigits, hvalue⟩
      rw [if_pos ⟨hne, List.all_eq_true.2 hdigits, hvalue ▸ n.toNat_lt⟩, hvalue, UInt8.ofNat_toNat]
  by_cases hsign : ∃ ds, cs = '+' :: ds
  · obtain ⟨ds, rfl⟩ := hsign
    refine (hread ds).trans ⟨fun h => ⟨ds, Or.inr rfl, h⟩, ?_⟩
    rintro ⟨ds', rfl | hds, h⟩
    · -- a plus sign is no digit
      have hplus := h.2.1 '+' List.mem_cons_self
      exact absurd hplus (by decide)
    · cases hds
      exact h
  · have hplain : component? cs =
        if cs ≠ [] ∧ cs.all Char.isDigit ∧ number cs < 256 then some (UInt8.ofNat (number cs)) else none := by
      unfold component?
      dsimp only
      split
      next ds => exact absurd ⟨ds, rfl⟩ hsign
      next => rfl
    rw [hplain]
    refine (hread cs).trans ⟨fun h => ⟨cs, Or.inl rfl, h⟩, ?_⟩
    rintro ⟨ds, rfl | rfl, h⟩
    · exact h
    · exact absurd ⟨ds, rfl⟩ hsign

theorem spellsNumber_digits {ds : List Char} {n : UInt8} (hne : ds ≠ []) (hdigits : ∀ d ∈ ds, d.isDigit = true)
    (hvalue : number ds = n.toNat) : SpellsNumber ds n :=
  ⟨ds, Or.inl rfl, hne, hdigits, number_eq_ofDigits ds ▸ hvalue⟩

/-- a character of a number is a digit or a plus sign -/
theorem SpellsNumber.mem {cs : List Char} {n : UInt8} (h : SpellsNumber cs n) {c : Char} (hc : c ∈ cs) :
    c.isDigit = true ∨ c = '+' := by
  obtain ⟨ds, rfl | rfl, -, hdigits, -⟩ := h
  · exact Or.inl (hdigits c hc)
  · rcases List.mem_cons.1 hc with rfl | hc
    · exact Or.inr rfl
    · exact Or.inl (hdigits c hc)

theorem SpellsNumber.ne_nil {cs : List Char} {n : UInt8} (h : SpellsNumber cs n) : cs ≠ [] := by
  obtain ⟨ds, rfl | rfl, hne, -⟩ := h
  · exact hne
  · exact List.cons_ne_nil _ _

/-- a number has neither blanks nor points in it -/
theorem SpellsNumber.solid {cs : List Char} {n : UInt8} (h : SpellsNumber cs n) {c : Char} (hc : c ∈ cs) :
    Text.isBlank c = false ∧ c ≠ '.' := by
  rcases h.mem hc with hdigit | rfl
  · obtain ⟨hlow, hhigh⟩ : 48 ≤ c.toNat ∧ c.toNat ≤ 57 := by
      simpa [Char.isDigit, UInt32.le_iff_toNat_le] using hdigit
    refine ⟨?_, fun heq => ?_⟩
    · simp only [Text.isBlank, Text.inRanges, Text.blankRanges, List.any_cons, List.any_nil, Bool.or_eq_false_iff,
        Bool.and_eq_false_iff, decide_eq_false_iff_not, and_true]
      omega
    · subst heq
      exact absurd hlow (by decide)
  · decide

/-! ## The two numbers -/

/-- **A version is read exactly where it is spelled.** -/
theorem parse?_eq_some_iff {s : String} {v : Version} : parse? s = some v ↔ Spells s v := by
  constructor
  · intro h
    obtain ⟨pre, post, hsplit, hpre, hpost⟩ := Text.trim_split s.toList
    have hpoint := List.takeWhile_append_dropWhile (p := fun c => decide (c ≠ '.')) (l := Text.trim s.toList)
    unfold parse? at h
    simp only at h
    split at h
    next => cases h
    next c minor hdrop =>
      obtain ⟨major, hmajor, h⟩ := Option.bind_eq_some_iff.1 h
      obtain ⟨minor', hminor, h⟩ := Option.bind_eq_some_iff.1 h
      cases h
      have hc : c = '.' := by
        have hne : (Text.trim s.toList).dropWhile (fun c => decide (c ≠ '.')) ≠ [] := hdrop ▸ List.cons_ne_nil c minor
        have hnot := List.head_dropWhile_not (fun c => decide (c ≠ '.')) hne
        simp only [hdrop, List.head_cons] at hnot
        exact of_not_not (of_decide_eq_false hnot)
      subst hc
      rw [hdrop] at hpoint
      exact ⟨pre, _, minor, post, by rw [hpoint]; exact hsplit, hpre, hpost, component?_eq_some_iff.1 hmajor,
        component?_eq_some_iff.1 hminor⟩
  · rintro ⟨pre, major, minor, post, hs, hpre, hpost, hmajor, hminor⟩
    have htrim : Text.trim s.toList = major ++ '.' :: minor := by
      rw [hs]
      refine Text.trim_append hpre hpost ?_ ?_ (by simp)
      · intro c hc
        cases major with
        | nil => exact absurd rfl hmajor.ne_nil
        | cons d major =>
          cases hc
          exact (hmajor.solid List.mem_cons_self).1
      · intro c hc
        have hlast : (major ++ '.' :: minor).getLast? = minor.getLast? := by
          cases minor with
          | nil => exact absurd rfl hminor.ne_nil
          | cons d minor => simp [List.getLast?_append, List.getLast?_cons]
        rw [hlast] at hc
        exact (hminor.solid (List.mem_of_getLast? hc)).1
    have hnone : ∀ c ∈ major, decide (c ≠ '.') = true := fun c hc => decide_eq_true (hmajor.solid hc).2
    unfold parse?
    simp only [htrim, List.takeWhile_append_of_pos hnone, List.dropWhile_append_of_pos hnone]
    simp [component?_eq_some_iff.2 hmajor, component?_eq_some_iff.2 hminor]

/-- **The text of a version spells it, in whatever blanks.** -/
theorem spells_text (v : Version) {pre post : List Char} (hpre : ∀ c ∈ pre, Text.isBlank c = true)
    (hpost : ∀ c ∈ post, Text.isBlank c = true) : Spells (String.ofList (pre ++ v.text.toList ++ post)) v := by
  have hnumber : ∀ n : UInt8, SpellsNumber (Nat.toDigits 10 n.toNat) n := by
    intro n
    refine spellsNumber_digits Nat.toDigits_ne_nil (fun d hd => ?_) Nat.ofDigitChars_ten_toDigits
    exact Nat.isDigit_of_mem_toDigits (by omega) (by omega) hd
  refine ⟨pre, Nat.toDigits 10 v.major.toNat, Nat.toDigits 10 v.minor.toNat, post, ?_, hpre, hpost, hnumber _, hnumber _⟩
  have htext : ∀ n : UInt8, (toString n).toList = Nat.toDigits 10 n.toNat := by
    intro n
    simp [toString]
  rw [String.toList_ofList, text, String.toList_append, String.toList_append, htext, htext]
  simp

theorem parse_eq_ok_iff {s : String} {v : Version} : parse s = .ok v ↔ Spells s v := by
  rw [← parse?_eq_some_iff, parse]
  cases parse? s <;> simp

/-- **Exactly the texts that spell a version are read**, each as the version that it spells; every other text is given back
as it came. The text of a version is read as that version, in whatever blanks. Of two versions, read from whatever texts, the
older one has the smaller major number or, where these are equal, the smaller minor number. -/
theorem parse_grammar (s : String) :
    (∀ v, parse s = .ok v ↔ Spells s v) ∧
    (∀ e, parse s = .error e ↔ e.input = s ∧ ∀ v, ¬ Spells s v) ∧
    (∀ v pre post, (∀ c ∈ pre, Text.isBlank c = true) → (∀ c ∈ post, Text.isBlank c = true) →
      parse (String.ofList (pre ++ v.text.toList ++ post)) = .ok v) ∧
    ∀ v w : Version, v.older w = true ↔ toLex (v.major.toNat, v.minor.toNat) < toLex (w.major.toNat, w.minor.toNat) := by
  refine ⟨fun v => parse_eq_ok_iff, fun e => ?_, fun v pre post hpre hpost => ?_, fun v w => ?_⟩
  · have hnone : parse? s = none ↔ ∀ v, ¬ Spells s v := by
      simp only [← parse?_eq_some_iff, Option.eq_none_iff_forall_ne_some, ne_eq]
    obtain ⟨input⟩ := e
    rw [← hnone, parse]
    cases parse? s <;> simp [eq_comm]
  · exact parse_eq_ok_iff.2 (spells_text v hpre hpost)
  · rw [older_iff, Prod.Lex.toLex_lt_toLex]

/-- a plus sign and leading zeros are read, in blanks that are no spaces, and make 3.10, which is newer than 3.9; with a
third number it is no version -/
theorem parse_grammar_padded :
    Spells "\u3000+003.010\n" ⟨3, 10⟩ ∧ parse "\u3000+003.010\n" = .ok ⟨3, 10⟩ ∧ parse "\u00853.9 " = .ok ⟨3, 9⟩ ∧
      (⟨3, 9⟩ : Version).older ⟨3, 10⟩ = true ∧ toLex (3, 9) < toLex (3, 10) ∧
      parse " 3.9.1" = .error ⟨" 3.9.1"⟩ ∧ ∀ v, ¬ Spells " 3.9.1" v := by
  have hnew : parse "\u3000+003.010\n" = .ok ⟨3, 10⟩ := by cbv
  have hthree : parse " 3.9.1" = .error ⟨" 3.9.1"⟩ := by cbv
  obtain ⟨hread, -, -, -⟩ := parse_grammar "\u3000+003.010\n"
  obtain ⟨-, -, htext, holder⟩ := parse_grammar "\u00853.9 "
  have hold : parse "\u00853.9 " = .ok ⟨3, 9⟩ := htext ⟨3, 9⟩ ['\u0085'] [' ']
    (List.forall_mem_singleton.2 rfl) (List.forall_mem_singleton.2 rfl)
  have hlt : toLex (3, 9) < toLex (3, 10) := by decide
  refine ⟨(hread _).1 hnew, hnew, hold, (holder _ _).2 hlt, hlt, hthree, ?_⟩
  exact (((parse_grammar " 3.9.1").2.1 _).1 hthree).2

end Version

end Changefeed
