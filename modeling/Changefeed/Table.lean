/-
Finite maps with at most one entry a key, kept in the order in which the keys first came.

Results:
- `get?_set_self`, `get?_set_of_ne`: setting a key is seen under that key and under no other;
- `get?_erase_self`, `get?_erase_of_ne`: so is erasing one;
- `mem_entries_iff`: the entries are exactly what look-ups find;
- `count_set`, `count_erase`: setting and erasing change the count by the entry that comes and the one that goes.
-/
namespace Changefeed

/-- a finite map as a list of entries with distinct keys -/
structure Table (κ : Type) (α : Type) where
  entries : List (κ × α)
  nodup : (entries.map Prod.fst).Nodup

namespace Table

variable {κ α : Type}

/-- the map without entries -/
def empty : Table κ α := ⟨[], List.nodup_nil⟩

instance : Inhabited (Table κ α) := ⟨empty⟩

/-- the keys that have an entry -/
def keys (t : Table κ α) : List κ := t.entries.map Prod.fst

/-- the value at a key of a list of entries, the first one if there are several -/
def lookup [DecidableEq κ] (k : κ) : List (κ × α) → Option α
  | [] => none
  | (k', a) :: rest => if k' = k then some a else lookup k rest

/-- the value stored at `k` -/
def get? [DecidableEq κ] (t : Table κ α) (k : κ) : Option α := lookup k t.entries

/-- the entries with the value at `k` replaced, in place if there is one and else at the end -/
def assign [DecidableEq κ] (k : κ) (a : α) : List (κ × α) → List (κ × α)
  | [] => [(k, a)]
  | (k', a') :: rest => if k' = k then (k, a) :: rest else (k', a') :: assign k a rest

theorem mem_keys_assign [DecidableEq κ] {k x : κ} {a : α} {l : List (κ × α)} :
    x ∈ (assign k a l).map Prod.fst ↔ x = k ∨ x ∈ l.map Prod.fst := by
  induction l with
  | nil => simp [assign]
  | cons e rest ih =>
    obtain ⟨k', a'⟩ := e
    by_cases h : k' = k
    · subst h; simp [assign]
    · simp only [assign, h, if_false, List.map_cons, List.mem_cons, ih]
      constructor
      · rintro (h | h | h) <;> simp [h]
      · rintro (h | h | h) <;> simp [h]

theorem nodup_assign [DecidableEq κ] (k : κ) (a : α) {l : List (κ × α)}
    (h : (l.map Prod.fst).Nodup) : ((assign k a l).map Prod.fst).Nodup := by
  induction l with
  | nil => simp [assign]
  | cons e rest ih =>
    obtain ⟨k', a'⟩ := e
    rw [List.map_cons, List.nodup_cons] at h
    by_cases hk : k' = k
    · subst hk; simpa [assign] using h
    · simp only [assign, hk, if_false, List.map_cons, List.nodup_cons]
      refine ⟨?_, ih h.2⟩
      rw [mem_keys_assign]
      rintro (h' | h')
      · exact hk h'
      · exact h.1 h'

/-- the map with `a` stored at `k` -/
def set [DecidableEq κ] (t : Table κ α) (k : κ) (a : α) : Table κ α :=
  ⟨assign k a t.entries, nodup_assign k a t.nodup⟩

/-- the map without an entry at `k` -/
def erase [DecidableEq κ] (t : Table κ α) (k : κ) : Table κ α :=
  ⟨t.entries.filter fun e => e.1 ≠ k,
    List.Sublist.nodup (List.filter_sublist.map _) t.nodup⟩

/-- how many entries satisfy `p` -/
def count (t : Table κ α) (p : α → Bool) : Nat := t.entries.countP fun e => p e.2

section Lemmas

variable [DecidableEq κ]

theorem lookup_assign_self (k : κ) (a : α) (l : List (κ × α)) :
    lookup k (assign k a l) = some a := by
  induction l with
  | nil => simp [assign, lookup]
  | cons e rest ih => by_cases h : e.1 = k <;> simp [assign, lookup, h, ih]

theorem lookup_assign_of_ne {k k' : κ} (h : k' ≠ k) (a : α) (l : List (κ × α)) :
    lookup k' (assign k a l) = lookup k' l := by
  induction l with
  | nil => simp [assign, lookup, Ne.symm h]
  | cons e rest ih =>
    obtain ⟨j, b⟩ := e
    by_cases hj : j = k
    · subst hj; simp [assign, lookup, Ne.symm h]
    · by_cases hj' : j = k'
      · subst hj'; simp [assign, lookup, hj]
      · simp [assign, lookup, hj, hj', ih]

theorem lookup_eq_none_iff {k : κ} {l : List (κ × α)} :
    lookup k l = none ↔ k ∉ l.map Prod.fst := by
  induction l with
  | nil => simp [lookup]
  | cons e rest ih =>
    obtain ⟨j, b⟩ := e
    by_cases h : j = k
    · subst h; simp [lookup]
    · simp [lookup, h, Ne.symm h, ih]

theorem lookup_filter_ne {k k' : κ} (h : k' ≠ k) (l : List (κ × α)) :
    lookup k' (l.filter fun e => e.1 ≠ k) = lookup k' l := by
  induction l with
  | nil => rfl
  | cons e rest ih =>
    obtain ⟨j, b⟩ := e
    by_cases hj : j = k
    · subst hj; simpa [lookup, Ne.symm h] using ih
    · by_cases hj' : j = k' <;> simp_all [lookup]

@[simp] theorem get?_empty (k : κ) : (empty : Table κ α).get? k = none := rfl

@[simp] theorem get?_set_self (t : Table κ α) (k : κ) (a : α) : (t.set k a).get? k = some a :=
  lookup_assign_self k a t.entries

theorem get?_set_of_ne (t : Table κ α) {k k' : κ} (h : k' ≠ k) (a : α) :
    (t.set k a).get? k' = t.get? k' :=
  lookup_assign_of_ne h a t.entries

@[simp] theorem get?_erase_self (t : Table κ α) (k : κ) : (t.erase k).get? k = none := by
  simp [get?, erase, lookup_eq_none_iff]

theorem get?_erase_of_ne (t : Table κ α) {k k' : κ} (h : k' ≠ k) :
    (t.erase k).get? k' = t.get? k' :=
  lookup_filter_ne h t.entries

theorem mem_entries_iff (t : Table κ α) (k : κ) (a : α) :
    (k, a) ∈ t.entries ↔ t.get? k = some a := by
  obtain ⟨l, nd⟩ := t
  simp only [get?]
  induction l with
  | nil => simp [lookup]
  | cons e rest ih =>
    obtain ⟨j, b⟩ := e
    rw [List.map_cons, List.nodup_cons] at nd
    have ih := ih nd.2
    by_cases h : j = k
    · subst h
      simp only [List.mem_cons, Prod.mk.injEq, true_and, lookup, if_true, Option.some.injEq]
      constructor
      · rintro (h | h)
        · exact h.symm
        · exact absurd (List.mem_map_of_mem (f := Prod.fst) h) nd.1
      · exact fun h => .inl h.symm
    · simp [lookup, h, Ne.symm h, ih]

theorem countP_assign (p : α → Bool) (k : κ) (a : α) (l : List (κ × α)) :
    (assign k a l).countP (fun e => p e.2) + ((lookup k l).any p).toNat =
      l.countP (fun e => p e.2) + (p a).toNat := by
  induction l with
  | nil => cases h : p a <;> simp [assign, lookup, h]
  | cons e rest ih =>
    obtain ⟨j, b⟩ := e
    by_cases hj : j = k
    · cases ha : p a <;> cases hb : p b <;> simp [assign, lookup, hj, ha, hb]
    · simp only [assign, lookup, hj, if_false, List.countP_cons]
      omega

theorem countP_filter_ne (p : α → Bool) (k : κ) {l : List (κ × α)} (nd : (l.map Prod.fst).Nodup) :
    (l.filter fun e => e.1 ≠ k).countP (fun e => p e.2) + ((lookup k l).any p).toNat =
      l.countP fun e => p e.2 := by
  induction l with
  | nil => rfl
  | cons e rest ih =>
    obtain ⟨j, b⟩ := e
    rw [List.map_cons, List.nodup_cons] at nd
    by_cases hj : j = k
    · have hrest : rest.filter (fun e => e.1 ≠ k) = rest := by
        refine List.filter_eq_self.2 fun e he => ?_
        have hmem : e.1 ∈ rest.map Prod.fst := List.mem_map_of_mem he
        have hne : e.1 ≠ k := fun h => nd.1 (hj.trans h.symm ▸ hmem)
        simpa using hne
      rw [List.filter_cons_of_neg (by simp [hj]), hrest]
      cases hb : p b <;> simp [lookup, hj, hb]
    · have ih := ih nd.2
      rw [List.filter_cons_of_pos (by simp [hj])]
      simp only [lookup, hj, if_false, List.countP_cons]
      omega

/-- setting a key counts the new value in place of the old one -/
theorem count_set (t : Table κ α) (k : κ) (a : α) (p : α → Bool) :
    (t.set k a).count p + ((t.get? k).any p).toNat = t.count p + (p a).toNat :=
  countP_assign p k a t.entries

/-- erasing a key counts its value no longer -/
theorem count_erase (t : Table κ α) (k : κ) (p : α → Bool) :
    (t.erase k).count p + ((t.get? k).any p).toNat = t.count p :=
  countP_filter_ne p k t.nodup

theorem count_pos {t : Table κ α} {k : κ} {a : α} {p : α → Bool} (h : t.get? k = some a) (hp : p a = true) :
    0 < t.count p :=
  List.countP_pos_iff.2 ⟨(k, a), (mem_entries_iff t k a).2 h, hp⟩

/-- erasing several keys, one after the other -/
theorem get?_foldl_erase (ks : List κ) (t : Table κ α) (k : κ) :
    (ks.foldl erase t).get? k = if k ∈ ks then none else t.get? k := by
  induction ks generalizing t with
  | nil => simp
  | cons j ks ih =>
    rw [List.foldl_cons, ih]
    by_cases hj : k = j
    · subst hj; simp
    · simp [hj, get?_erase_of_ne]

/-- erasing keys whose values are not counted -/
theorem count_foldl_erase {p : α → Bool} {ks : List κ} {t : Table κ α}
    (h : ∀ k ∈ ks, (t.get? k).any p = false) : (ks.foldl erase t).count p = t.count p := by
  induction ks generalizing t with
  | nil => rfl
  | cons j ks ih =>
    have hj := count_erase t j p
    rw [h j List.mem_cons_self] at hj
    rw [List.foldl_cons, ih fun k hk => ?_]
    · simpa using hj
    · by_cases hkj : k = j
      · subst hkj; simp
      · rw [get?_erase_of_ne t hkj]
        exact h k (List.mem_cons_of_mem j hk)

end Lemmas

end Table

end Changefeed
