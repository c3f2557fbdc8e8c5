/-
Texts and their bytes. The bytes of a character begin with one that follows no other, and the greater the character the
greater are its bytes, from the first one in which they differ. So texts are in the order of their bytes, and a text begins
or ends another one exactly where its bytes do: what is cut off between bytes is cut off between characters.

Results:
- `encodeNat_lt`: a smaller character has smaller bytes, whatever comes behind it;
- `encode_lt_iff`, `utf8_lt_iff`: the order of texts is the order of their bytes;
- `encode_prefix_iff`, `encode_suffix_iff`: bytes begin and end where characters do.
-/
import Mathlib.Tactic
import Mathlib.Data.Char
import Changefeed.Text.Utf8

namespace Changefeed

namespace Utf8

/-! ## The order of bytes -/

/-- bytes are less if their first one is, or if it is the same and those behind it are less -/
theorem cons_lt_of {x y : ℕ} (hy : y < 256) {xs ys : Bytes} (h : x < y ∨ x = y ∧ xs < ys) :
    UInt8.ofNat x :: xs < UInt8.ofNat y :: ys := by
  rw [List.cons_lt_cons_iff]
  rcases h with h | ⟨rfl, h⟩
  · left
    rw [UInt8.lt_iff_toNat_lt, UInt8.toNat_ofNat_of_lt' hy, UInt8.toNat_ofNat_of_lt' (h.trans hy)]
    exact h
  · exact Or.inr ⟨rfl, h⟩

/-- **A smaller character has smaller bytes**, whatever comes behind it. -/
theorem encodeNat_lt {m n : ℕ} (h : m < n) (hn : n < 0x110000) (xs ys : Bytes) :
    encodeNat m ++ xs < encodeNat n ++ ys := by
  -- what a first byte and some following ones hold is a quotient, and where it is the same the next byte decides
  have hquotient : ∀ k, m / k < n / k ∨ m / k = n / k := fun k => lt_or_eq_of_le (Nat.div_le_div_right h.le)
  have hlast : m / 64 = n / 64 → UInt8.ofNat (0x80 + m % 64) :: xs < UInt8.ofNat (0x80 + n % 64) :: ys :=
    fun heq => cons_lt_of (by omega) (Or.inl (by omega))
  have hthird : m / 4096 = n / 4096 → UInt8.ofNat (0x80 + m / 64 % 64) :: UInt8.ofNat (0x80 + m % 64) :: xs <
      UInt8.ofNat (0x80 + n / 64 % 64) :: UInt8.ofNat (0x80 + n % 64) :: ys := by
    intro heq
    refine cons_lt_of (by omega) ((hquotient 64).imp (fun hlt => ?_) fun hsame => ⟨by rw [hsame], hlast hsame⟩)
    omega
  have hsecond : m / 262144 = n / 262144 →
      UInt8.ofNat (0x80 + m / 4096 % 64) :: UInt8.ofNat (0x80 + m / 64 % 64) :: UInt8.ofNat (0x80 + m % 64) :: xs <
        UInt8.ofNat (0x80 + n / 4096 % 64) :: UInt8.ofNat (0x80 + n / 64 % 64) :: UInt8.ofNat (0x80 + n % 64) :: ys := by
    intro heq
    refine cons_lt_of (by omega) ((hquotient 4096).imp (fun hlt => ?_) fun hsame => ⟨by rw [hsame], hthird hsame⟩)
    omega
  unfold encodeNat
  split
  · -- one byte against one, two, three and four
    split
    · exact cons_lt_of (by omega) (Or.inl h)
    · split
      · exact cons_lt_of (by omega) (Or.inl (by omega))
      · split <;> exact cons_lt_of (by omega) (Or.inl (by omega))
  · rw [if_neg (show ¬ n < 0x80 by omega)]
    split
    · split
      · exact cons_lt_of (by omega) ((hquotient 64).imp (by omega) fun hsame => ⟨by rw [hsame], hlast hsame⟩)
      · split <;> exact cons_lt_of (by omega) (Or.inl (by omega))
    · rw [if_neg (show ¬ n < 0x800 by omega)]
      split
      · split
        · exact cons_lt_of (by omega) ((hquotient 4096).imp (by omega) fun hsame => ⟨by rw [hsame], hthird hsame⟩)
        · exact cons_lt_of (by omega) (Or.inl (by omega))
      · rw [if_neg (show ¬ n < 0x10000 by omega)]
        exact cons_lt_of (by omega) ((hquotient 262144).imp (by omega) fun hsame => ⟨by rw [hsame], hsecond hsame⟩)

theorem encodeChar_lt {c d : Char} (h : c < d) (xs ys : Bytes) : encodeChar c ++ xs < encodeChar d ++ ys :=
  encodeNat_lt h (toNat_lt d) xs ys

theorem encode_cons (c : Char) (cs : List Char) : encode (c :: cs) = encodeChar c ++ encode cs := List.flatMap_cons

/-- the byte follows others in a character -/
def Follows (b : UInt8) : Prop := 0x80 ≤ b.toNat ∧ b.toNat < 0xc0

/-- the bytes of a character are one that follows no other and some that do -/
theorem encodeChar_shape (c : Char) : ∃ b bs, encodeChar c = b :: bs ∧ ¬ Follows b ∧ ∀ x ∈ bs, Follows x := by
  have hlt := toNat_lt c
  have hfirst : ∀ {x : ℕ}, x < 256 → (x < 0x80 ∨ 0xc0 ≤ x) → ¬ Follows (.ofNat x) := by
    intro x hx hrange
    rw [Follows, UInt8.toNat_ofNat_of_lt' hx]
    omega
  have hfollows : ∀ x : ℕ, Follows (.ofNat (0x80 + x % 64)) := by
    intro x
    rw [Follows, UInt8.toNat_ofNat_of_lt' (show 0x80 + x % 64 < 256 by omega)]
    omega
  unfold encodeChar encodeNat
  split
  · exact ⟨_, _, rfl, hfirst (by omega) (by omega), List.forall_mem_nil _⟩
  · split
    · exact ⟨_, _, rfl, hfirst (by omega) (by omega), List.forall_mem_singleton.2 (hfollows _)⟩
    · split
      · refine ⟨_, _, rfl, hfirst (by omega) (by omega), ?_⟩
        exact List.forall_mem_cons.2 ⟨hfollows _, List.forall_mem_singleton.2 (hfollows _)⟩
      · refine ⟨_, _, rfl, hfirst (by omega) (by omega), List.forall_mem_cons.2 ⟨hfollows _, ?_⟩⟩
        exact List.forall_mem_cons.2 ⟨hfollows _, List.forall_mem_singleton.2 (hfollows _)⟩

/-- **The order of texts is the order of their bytes.** -/
theorem encode_lt_iff (cs ds : List Char) : encode cs < encode ds ↔ cs < ds := by
  induction cs generalizing ds with
  | nil =>
    cases ds with
    | nil => exact iff_of_false (List.not_lt_nil _) (List.not_lt_nil _)
    | cons d ds =>
      obtain ⟨b, bs, hd, -⟩ := encodeChar_shape d
      rw [encode_cons, hd]
      exact iff_of_true (List.nil_lt_cons b _) (List.nil_lt_cons d ds)
  | cons c cs ih =>
    cases ds with
    | nil => exact iff_of_false (List.not_lt_nil _) (List.not_lt_nil _)
    | cons d ds =>
      rw [encode_cons, encode_cons, List.cons_lt_cons_iff]
      rcases lt_trichotomy c d with hlt | rfl | hgt
      · exact iff_of_true (encodeChar_lt hlt _ _) (Or.inl hlt)
      · have hsame : encodeChar c ++ encode cs < encodeChar c ++ encode ds ↔ encode cs < encode ds := by
          induction encodeChar c with
          | nil => rfl
          | cons b bs ihb => simpa using ihb
        simp [hsame, ih]
      · refine iff_of_false (List.lt_asymm (encodeChar_lt hgt _ _)) ?_
        rintro (hlt | ⟨rfl, -⟩)
        · exact lt_asymm hgt hlt
        · exact lt_irrefl _ hgt

/-! ## Where bytes begin and end -/

/-- the bytes of a text tell its first character and the rest -/
theorem encodeChar_append_inj {c d : Char} {xs ys : Bytes} (h : encodeChar c ++ xs = encodeChar d ++ ys) :
    c = d ∧ xs = ys := by
  rcases lt_trichotomy c d with hlt | rfl | hgt
  · exact absurd (h ▸ encodeChar_lt hlt xs ys) (List.lt_irrefl _)
  · exact ⟨rfl, List.append_cancel_left h⟩
  · exact absurd (h ▸ encodeChar_lt hgt ys xs) (List.lt_irrefl _)

theorem encode_inj {cs ds : List Char} (h : encode cs = encode ds) : cs = ds := by
  have hread := decode?_encode ds
  rw [← h, decode?_encode] at hread
  exact Option.some.inj hread

/-- **A text begins another one exactly where its bytes do.** -/
theorem encode_prefix_iff {cs ds : List Char} : encode cs <+: encode ds ↔ cs <+: ds := by
  constructor
  · intro h
    induction cs generalizing ds with
    | nil => exact List.nil_prefix
    | cons c cs ih =>
      obtain ⟨rest, hrest⟩ := h
      rw [encode_cons, List.append_assoc] at hrest
      cases ds with
      | nil =>
        obtain ⟨b, bs, hc, -⟩ := encodeChar_shape c
        rw [hc] at hrest
        cases hrest
      | cons d ds =>
        obtain ⟨rfl, htail⟩ := encodeChar_append_inj (hrest.trans (encode_cons d ds))
        exact List.cons_prefix_cons.2 ⟨rfl, ih ⟨rest, htail⟩⟩
  · rintro ⟨rest, rfl⟩
    exact ⟨encode rest, by simp [encode]⟩

/-- **A text ends another one exactly where its bytes do**: they begin with a byte that follows no other, so they cannot
begin inside a character. -/
theorem encode_suffix_iff {cs ds : List Char} : encode cs <:+ encode ds ↔ cs <:+ ds := by
  constructor
  · intro h
    induction ds with
    | nil =>
      cases cs with
      | nil => exact List.suffix_rfl
      | cons c cs =>
        obtain ⟨b, bs, hc, -⟩ := encodeChar_shape c
        rw [encode_cons, hc] at h
        cases List.suffix_nil.1 h
    | cons d ds ih =>
      obtain ⟨front, hfront⟩ := h
      rw [encode_cons] at hfront
      rcases List.append_eq_append_iff.1 hfront with ⟨m, hd, hcs⟩ | ⟨m, rfl, hcs⟩
      · -- the bytes begin inside the first character, or with it
        cases front with
        | nil =>
          have hsame : encode cs = encode (d :: ds) := by rw [encode_cons, hd, hcs, List.nil_append]
          rw [encode_inj hsame]
        | cons x front =>
          cases m with
          | nil =>
            rw [encode_inj (hcs.trans (List.nil_append _))]
            exact List.suffix_cons d ds
          | cons y m =>
            have hfollows : Follows y := by
              obtain ⟨b, bs, hshape, -, hbs⟩ := encodeChar_shape d
              rw [hshape] at hd
              obtain ⟨-, rfl⟩ := List.cons.inj hd
              exact hbs y (by simp)
            cases cs with
            | nil => cases hcs
            | cons c cs =>
              obtain ⟨b, bs, hshape, hfirst, -⟩ := encodeChar_shape c
              rw [encode_cons, hshape] at hcs
              obtain ⟨rfl, -⟩ := List.cons.inj hcs
              exact absurd hfollows hfirst
      · exact (ih ⟨m, hcs.symm⟩).trans (List.suffix_cons d ds)
  · rintro ⟨front, rfl⟩
    exact ⟨encode front, by simp [encode]⟩

end Utf8

theorem utf8_lt_iff {s t : String} : utf8 s < utf8 t ↔ s < t := Utf8.encode_lt_iff s.toList t.toList

end Changefeed
