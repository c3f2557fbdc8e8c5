/-
The successive bearers of one name: the closed ones in the order in which they were opened, and the
open one, if there is one. A bearer's number is the number of bearers that were opened before it, so
a number is never given twice and still finds its bearer after a newer one has taken the name.

Results:
- `get?_openId?`: the number of the open bearer finds the open bearer;
- `get?_modify`, `get?_close`: changing and closing a bearer leave every other bearer as it was.
-/
namespace Changefeed

/-- the bearers of one name -/
structure Generations (α : Type) where
  closed : List α
  opened : Option α

namespace Generations

variable {α : Type}

/-- a name that nobody has borne -/
def empty : Generations α := ⟨[], none⟩

/-- the number of the open bearer -/
def openId? (g : Generations α) : Option Nat := g.opened.map fun _ => g.closed.length

/-- the bearer with number `n`, open or closed -/
def get? (g : Generations α) (n : Nat) : Option α :=
  if n = g.closed.length then g.opened else g.closed[n]?

/-- gives the name to `a`; a bearer that is still open is closed as it is -/
def push (g : Generations α) (a : α) : Generations α :=
  ⟨g.closed ++ g.opened.toList, some a⟩

/-- closes the open bearer, changed by `f` a last time -/
def close (g : Generations α) (f : α → α) : Generations α :=
  ⟨g.closed ++ (g.opened.map f).toList, none⟩

/-- changes the bearer with number `n`, open or closed -/
def modify (g : Generations α) (n : Nat) (f : α → α) : Generations α :=
  if n = g.closed.length then ⟨g.closed, g.opened.map f⟩ else ⟨g.closed.modify n f, g.opened⟩

theorem get?_openId? {g : Generations α} {n : Nat} (h : g.openId? = some n) :
    g.get? n = g.opened := by
  obtain ⟨closed, opened⟩ := g
  cases opened with
  | none => simp [openId?] at h
  | some a => simp_all [openId?, get?]

@[simp] theorem opened_push (g : Generations α) (a : α) : (g.push a).opened = some a := rfl

@[simp] theorem opened_close (g : Generations α) (f : α → α) : (g.close f).opened = none := rfl

/-- changing one bearer leaves the others as they were -/
theorem get?_modify (g : Generations α) (n m : Nat) (f : α → α) :
    (g.modify n f).get? m = if m = n then (g.get? n).map f else g.get? m := by
  unfold modify get?
  by_cases hn : n = g.closed.length
  · by_cases hm : m = n <;> simp_all
  · by_cases hm : m = n
    · subst hm; simp [hn]
    · simp [hn, hm, Ne.symm hm]

/-- closing changes the open bearer alone -/
theorem get?_close (g : Generations α) (f : α → α) (m : Nat) :
    (g.close f).get? m = if m = g.closed.length then g.opened.map f else g.get? m := by
  obtain ⟨closed, opened⟩ := g
  unfold close get?
  cases opened with
  | none => by_cases hm : m = closed.length <;> simp [hm]
  | some a =>
    by_cases hm : m = closed.length
    · subst hm; simp
    · by_cases hm' : m = closed.length + 1
      · subst hm'; simp
      · simp only [Option.map_some, Option.toList_some, List.length_append, List.length_singleton, hm, hm', if_false]
        rcases Nat.lt_or_gt_of_ne hm with h | h
        · exact List.getElem?_append_left h
        · rw [List.getElem?_eq_none (by simp; omega), List.getElem?_eq_none (by omega)]

end Generations

end Changefeed
