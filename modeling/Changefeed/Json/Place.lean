/-
The place in a text that an error names at the end of its reason: a line and a column, both below 2^64.
It is written in one way, without leading zeros. Line zero stands for no place and is not written.

Results:
- `settle_append_of_getLast?`: a reason that does not end in a digit is kept as it is.
-/
import Changefeed.Json.Numeral
import Changefeed.Wire.Integer
namespace Changefeed.Json

structure Place where
  line : Nat
  column : Nat
deriving DecidableEq, Repr

namespace Place

/-- what stands before the line -/
def atLine : List Char := [' ', 'a', 't', ' ', 'l', 'i', 'n', 'e', ' ']

/-- what stands before the column -/
def atColumn : List Char := [' ', 'c', 'o', 'l', 'u', 'm', 'n', ' ']

/-- the place as it follows a reason -/
def suffix (p : Place) : List Char :=
  atLine ++ Numeral.writeNat p.line ++ (atColumn ++ Numeral.writeNat p.column)

/-- the number at the end of a text, and the text before it -/
def splitNumber? (cs : List Char) : Option (List Char × Nat) :=
  match Numeral.natural? (cs.reverse.takeWhile Char.isDigit).reverse with
  | some n => if n < Width.w64.count then some ((cs.reverse.dropWhile Char.isDigit).reverse, n) else none
  | none => none

/-- the place at the end of a reason, and the reason before it -/
def split? (reason : List Char) : Option (List Char × Place) := do
  let (cs, column) ← splitNumber? reason
  let cs ← atColumn.isSuffixOf? cs
  let (cs, line) ← splitNumber? cs
  let cs ← atLine.isSuffixOf? cs
  return (cs, ⟨line, column⟩)

/-- the reason, with the place at its end as places are written -/
def settle (reason : String) : String :=
  match split? reason.toList with
  | some (cs, p) => String.ofList (if p.line = 0 then cs else cs ++ p.suffix)
  | none => reason

theorem settle_append_of_getLast? (reason : String) {ending : String} {c : Char}
    (hlast : ending.toList.getLast? = some c) (hc : c.isDigit = false) :
    settle (reason ++ ending) = reason ++ ending := by
  have column : splitNumber? (reason ++ ending).toList = none := by
    obtain ⟨init, hinit⟩ := List.getLast?_eq_some_iff.1 hlast
    have hr : (reason ++ ending).toList.reverse = c :: (reason.toList ++ init).reverse := by simp [hinit]
    rw [splitNumber?, hr, List.takeWhile_cons_of_neg (by simp [hc])]
    rfl
  simp only [settle, split?, column, Option.bind_eq_bind, Option.bind_none]

end Place

end Changefeed.Json
