/-
Maps from names to values, kept in the order of the names, so that two maps with the same entries are
the same map.

Results:
- `find?_insert_self`, `find?_insert_of_ne`: inserting a name is seen under that name only.
-/
namespace Changefeed

/-- a map from names to values, in ascending order of the names -/
structure Directory (α : Type) where
  entries : List (String × α)
  sorted : entries.Pairwise fun a b => a.1 < b.1

namespace Directory

variable {α : Type}

def empty : Directory α := ⟨[], List.Pairwise.nil⟩

instance : Inhabited (Directory α) := ⟨empty⟩

instance [DecidableEq α] : DecidableEq (Directory α) := fun a b =>
  decidable_of_iff (a.entries = b.entries)
    ⟨fun h => by cases a; cases b; cases h; rfl, fun h => by rw [h]⟩

def size (d : Directory α) : Nat := d.entries.length

/-- puts a value under a name, replacing the one before; `place` expects ascending names -/
def place (name : String) (a : α) : List (String × α) → List (String × α)
  | [] => [(name, a)]
  | (n, b) :: rest =>
    if name < n then (name, a) :: (n, b) :: rest
    else if n = name then (name, a) :: rest
    else (n, b) :: place name a rest

theorem mem_place {name : String} {a : α} {l : List (String × α)} {e : String × α}
    (h : e ∈ place name a l) : e = (name, a) ∨ e ∈ l := by
  induction l with
  | nil => simpa [place] using h
  | cons x rest ih =>
    obtain ⟨n, b⟩ := x
    simp only [place] at h
    split at h
    · simpa using h
    · split at h
      · rcases List.mem_cons.1 h with h | h
        · exact .inl h
        · exact .inr (List.mem_cons_of_mem _ h)
      · rcases List.mem_cons.1 h with h | h
        · exact .inr (h ▸ List.mem_cons_self)
        · exact (ih h).imp id (List.mem_cons_of_mem _)

theorem place_sorted (name : String) (a : α) {l : List (String × α)}
    (h : l.Pairwise fun a b => a.1 < b.1) : (place name a l).Pairwise fun a b => a.1 < b.1 := by
  induction l with
  | nil => simp [place]
  | cons x rest ih =>
    obtain ⟨n, b⟩ := x
    rw [List.pairwise_cons] at h
    simp only [place]
    split
    next hlt =>
      refine List.pairwise_cons.2 ⟨fun e he => ?_, List.pairwise_cons.2 h⟩
      rcases List.mem_cons.1 he with rfl | he
      · exact hlt
      · exact String.lt_trans hlt (h.1 e he)
    next hlt =>
      split
      next heq => exact heq ▸ List.pairwise_cons.2 h
      next hne =>
        refine List.pairwise_cons.2 ⟨fun e he => ?_, ih h.2⟩
        rcases mem_place he with rfl | he
        · exact Std.lt_of_le_of_ne (String.not_lt.1 hlt) hne
        · exact h.1 e he

/-- the map with `a` under `name` -/
def insert (d : Directory α) (name : String) (a : α) : Directory α :=
  ⟨place name a d.entries, place_sorted name a d.sorted⟩

/-- the map of a list of entries, where the last of several under one name counts -/
def ofList (l : List (String × α)) : Directory α := l.foldl (fun d e => d.insert e.1 e.2) empty

/-- the value under a name -/
def find? (d : Directory α) (name : String) : Option α :=
  (d.entries.find? fun e => e.1 = name).map Prod.snd

theorem find?_place_self (name : String) (a : α) (l : List (String × α)) :
    ((place name a l).find? fun e => e.1 = name).map Prod.snd = some a := by
  induction l with
  | nil => simp [place]
  | cons x rest ih =>
    obtain ⟨n, b⟩ := x
    simp only [place]
    split
    · simp
    · split
      · simp
      next hne => simpa [List.find?_cons, hne] using ih

theorem find?_place_of_ne {name name' : String} (h : name' ≠ name) (a : α) (l : List (String × α)) :
    ((place name a l).find? fun e => e.1 = name') = l.find? fun e => e.1 = name' := by
  induction l with
  | nil => simp [place, Ne.symm h]
  | cons x rest ih =>
    obtain ⟨n, b⟩ := x
    simp only [place]
    split
    · simp [Ne.symm h]
    · split
      next heq => subst heq; simp [Ne.symm h]
      · simp [List.find?_cons, ih]

@[simp] theorem find?_insert_self (d : Directory α) (name : String) (a : α) :
    (d.insert name a).find? name = some a :=
  find?_place_self name a d.entries

theorem find?_insert_of_ne (d : Directory α) {name name' : String} (h : name' ≠ name) (a : α) :
    (d.insert name a).find? name' = d.find? name' :=
  congrArg _ (find?_place_of_ne h a d.entries)

end Directory

end Changefeed
