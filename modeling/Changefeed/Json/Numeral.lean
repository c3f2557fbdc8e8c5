/-
Whole numbers in documents: decimal digits without leading zeros, with a minus sign for negative ones,
and without fraction or exponent. Zero has no sign.

Results:
- `natural?_write`: what was written is read back.
-/
namespace Changefeed.Json.Numeral

/-- the digits of a number -/
def writeNat (n : Nat) : List Char := Nat.toDigits 10 n

def write : Int → List Char
  | .ofNat n => writeNat n
  | .negSucc n => '-' :: writeNat (n + 1)

/-- the number that digits stand for; the grammar has seen to leading zeros -/
def natural? (lexeme : List Char) : Option Nat :=
  if lexeme ≠ [] ∧ lexeme.all Char.isDigit then some (Nat.ofDigitChars 10 lexeme 0) else none

/-- the sign and the amount of a number without fraction and exponent -/
def signed? : List Char → Option (Bool × Nat)
  | '-' :: digits => (natural? digits).map ((true, ·))
  | digits => (natural? digits).map ((false, ·))

/-- the whole number that a lexeme stands for -/
def read? (lexeme : List Char) : Option Int :=
  match signed? lexeme with
  | some (true, n) => if n = 0 then none else some (-n)
  | some (false, n) => some n
  | none => none

theorem natural?_write (n : Nat) : natural? (writeNat n) = some n := by
  have h : ∀ c ∈ Nat.toDigits 10 n, c.isDigit = true := fun c hc =>
    Nat.isDigit_of_mem_toDigits (by omega) (by omega) hc
  simpa [natural?, writeNat, Nat.ofDigitChars_ten_toDigits, List.all_eq_true,
    Nat.toDigits_ne_nil] using h

end Changefeed.Json.Numeral
