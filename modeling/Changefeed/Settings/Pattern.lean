/-
Names with a wildcard: the text before the star and the text after it must begin and end a name
without sharing a character of it. The longer these two texts are, in encoded bytes, the more specific
the name is.

Results:
- `fits_iff_matches`: the test on the two ends is exactly that the name is the text before the star,
  anything, and the text after it.
-/
namespace Changefeed.Pattern

/-- the texts before and after the first star -/
def parts? (pattern : List Char) : Option (List Char × List Char) :=
  match pattern.dropWhile (· ≠ '*') with
  | [] => none
  | _ :: after => some (pattern.takeWhile (· ≠ '*'), after)

/-- the length of a text in encoded bytes -/
def bytes : List Char → Nat
  | [] => 0
  | c :: cs => c.utf8Size + bytes cs

/-- `before` begins the name and `after` ends it, and they do not overlap -/
def fits (before after name : List Char) : Bool :=
  bytes before + bytes after ≤ bytes name && before.isPrefixOf name && after.isSuffixOf name

/-- how specific the match of a pattern with a name is, `none` if it does not match -/
def score? (pattern name : String) : Option Nat :=
  match parts? pattern.toList with
  | none => none
  | some (before, after) =>
    if fits before after name.toList then some (bytes before + bytes after) else none

/-- the name is the text before the star, anything, and the text after it -/
def Matches (before after name : List Char) : Prop := ∃ mid, name = before ++ mid ++ after

theorem bytes_append (a b : List Char) : bytes (a ++ b) = bytes a + bytes b := by
  induction a with
  | nil => simp [bytes]
  | cons c a ih =>
    rw [List.cons_append, bytes, bytes, ih]
    omega

/-- the test on the two ends is the match -/
theorem fits_iff_matches (before after name : List Char) :
    fits before after name = true ↔ Matches before after name := by
  simp only [fits, Matches, Bool.and_eq_true, decide_eq_true_eq, List.isPrefixOf_iff_prefix,
    List.isSuffixOf_iff_suffix]
  constructor
  · rintro ⟨⟨hlen, rest, rfl⟩, front, hfront⟩
    rcases List.append_eq_append_iff.1 hfront with ⟨m, rfl, hm⟩ | ⟨m, hm, rfl⟩
    · -- the front is no longer than `before`: the overlap `m` has no bytes
      subst hm
      simp only [bytes_append] at hlen
      have : bytes m = 0 := by omega
      cases m with
      | nil => exact ⟨[], by simp⟩
      | cons c m =>
        have := Char.utf8Size_pos c
        simp [bytes] at *
        omega
    · subst hm
      exact ⟨m, by simp⟩
  · rintro ⟨mid, rfl⟩
    refine ⟨⟨?_, ⟨mid ++ after, by simp⟩⟩, ⟨before ++ mid, rfl⟩⟩
    simp only [bytes_append]
    omega

end Changefeed.Pattern
