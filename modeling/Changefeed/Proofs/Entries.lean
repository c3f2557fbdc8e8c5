/-
What a directory holds. Its names are in ascending order, so no name is there twice, and a look-up finds the entry with the
name wherever it is. Of entries that are put in one after the other, the last one under each name stays (`Prevails`).

Results:
- `find?_eq_some_iff`, `find?_eq_none_iff`: look-ups find the entries;
- `mem_insert_iff`: what is put in takes the place of what was under its name;
- `mem_ofList_iff`: the directory of a list holds what prevails in it.
-/
import Mathlib.Tactic
import Changefeed.Directory

namespace Changefeed.Directory

variable {α : Type}

/-- the last entry of the list under this name -/
def Prevails (l : List (String × α)) (name : String) (a : α) : Prop :=
  ∃ before after, l = before ++ (name, a) :: after ∧ ∀ e ∈ after, e.1 ≠ name

theorem prevails_snoc {l : List (String × α)} {e : String × α} {name : String} {a : α} :
    Prevails (l ++ [e]) name a ↔ e = (name, a) ∨ (e.1 ≠ name ∧ Prevails l name a) := by
  constructor
  · rintro ⟨before, after, hsplit, hafter⟩
    rcases List.eq_nil_or_concat after with rfl | ⟨init, last, rfl⟩
    · obtain ⟨-, hlast⟩ := List.append_inj' hsplit rfl
      exact Or.inl (List.singleton_inj.1 hlast)
    · have hsplit : l ++ [e] = (before ++ (name, a) :: init) ++ [last] := by simpa using hsplit
      obtain ⟨rfl, hlast⟩ := List.append_inj' hsplit rfl
      obtain rfl := List.singleton_inj.1 hlast
      exact Or.inr ⟨hafter e (by simp), before, init, rfl, fun e' he' => hafter e' (by simp [he'])⟩
  · rintro (rfl | ⟨hne, before, after, rfl, hafter⟩)
    · exact ⟨l, [], rfl, by simp⟩
    · refine ⟨before, after ++ [e], by simp, fun e' he' => ?_⟩
      rcases List.mem_append.1 he' with he' | he'
      · exact hafter e' he'
      · rw [List.mem_singleton.1 he']
        exact hne

/-- a name is there once -/
theorem entry_unique (d : Directory α) {e e' : String × α} (he : e ∈ d.entries) (he' : e' ∈ d.entries) (h : e.1 = e'.1) :
    e = e' := by
  have hnodup : (d.entries.map Prod.fst).Nodup := by
    refine List.pairwise_map.2 (d.sorted.imp fun hlt heq => ?_)
    rw [heq] at hlt
    exact String.lt_irrefl _ hlt
  exact List.inj_on_of_nodup_map hnodup he he' h

theorem find?_eq_some_iff {d : Directory α} {name : String} {a : α} : d.find? name = some a ↔ (name, a) ∈ d.entries := by
  unfold find?
  constructor
  · intro h
    obtain ⟨e, he, rfl⟩ := Option.map_eq_some_iff.1 h
    have hname : e.1 = name := by simpa using List.find?_some he
    exact hname ▸ List.mem_of_find?_eq_some he
  · intro h
    cases hfind : d.entries.find? fun e => e.1 = name with
    | none =>
      have hne := List.find?_eq_none.1 hfind (name, a) h
      simp at hne
    | some e =>
      have hname : e.1 = name := by simpa using List.find?_some hfind
      rw [d.entry_unique (List.mem_of_find?_eq_some hfind) h hname]
      rfl

theorem find?_eq_none_iff {d : Directory α} {name : String} : d.find? name = none ↔ ∀ a, (name, a) ∉ d.entries := by
  simp only [← find?_eq_some_iff, Option.eq_none_iff_forall_ne_some, ne_eq]

theorem mem_insert_iff {d : Directory α} {name : String} {a : α} {e : String × α} :
    e ∈ (d.insert name a).entries ↔ e = (name, a) ∨ (e.1 ≠ name ∧ e ∈ d.entries) := by
  obtain ⟨name', a'⟩ := e
  rw [← find?_eq_some_iff, ← find?_eq_some_iff]
  by_cases h : name' = name
  · subst h
    simp [eq_comm]
  · simp [find?_insert_of_ne d h, h]

/-- **The directory of a list holds the last entry under each name**, and nothing else. -/
theorem mem_ofList_iff {l : List (String × α)} {name : String} {a : α} :
    (name, a) ∈ (ofList l).entries ↔ Prevails l name a := by
  induction l using List.reverseRecOn with
  | nil =>
    refine iff_of_false List.not_mem_nil ?_
    rintro ⟨before, after, h, -⟩
    simp at h
  | append_singleton l e ih =>
    have hsnoc : ofList (l ++ [e]) = (ofList l).insert e.1 e.2 := by rw [ofList, List.foldl_append]; rfl
    rw [hsnoc, mem_insert_iff, prevails_snoc, ih, ne_comm, eq_comm]

end Changefeed.Directory
