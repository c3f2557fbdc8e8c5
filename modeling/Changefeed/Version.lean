/-
Cluster versions, ordered by their numbers, and their text.

Results:
- `older_iff`: the major number decides, and the minor one between equal ones.
-/
import Changefeed.Text.Escaped
namespace Changefeed

structure Version where
  major : UInt8
  minor : UInt8
deriving DecidableEq, Repr, Inhabited

namespace Version

/-- the major number decides, then the minor one -/
def order (a b : Version) : Ordering := (compare a.major b.major).then (compare a.minor b.minor)

def older (a b : Version) : Bool := a.order b = .lt

/-- the major numbers decide, and the minor ones where these are equal -/
theorem older_iff (a b : Version) :
    a.older b = true ↔ a.major.toNat < b.major.toNat ∨ a.major.toNat = b.major.toNat ∧ a.minor.toNat < b.minor.toNat := by
  rw [older, decide_eq_true_iff, order, Ordering.then_eq_lt, Std.compare_eq_lt, Std.compare_eq_lt, Std.compare_eq_iff_eq,
    UInt8.lt_iff_toNat_lt, UInt8.lt_iff_toNat_lt, UInt8.toNat_inj]

def text (v : Version) : String := toString v.major ++ "." ++ toString v.minor

/-- the number that a run of decimal digits stands for -/
def number (ds : List Char) : Nat := Nat.ofDigitChars 10 ds 0

/-- one number of a version: a plus sign is allowed, then at least one decimal digit, leading zeros
included, for a value below 256 -/
def component? (cs : List Char) : Option UInt8 :=
  let ds := match cs with
    | '+' :: ds => ds
    | ds => ds
  if ds ≠ [] ∧ ds.all Char.isDigit ∧ number ds < 256 then some (UInt8.ofNat (number ds)) else none

/-- a version is two numbers around the first point, in blanks -/
def parse? (s : String) : Option Version :=
  let cs := Text.trim s.toList
  match cs.dropWhile (· ≠ '.') with
  | [] => none
  | _ :: minor => do
    let major ← component? (cs.takeWhile (· ≠ '.'))
    let minor ← component? minor
    some ⟨major, minor⟩

/-- the message about a text that is no version; it shows the text as it was given -/
def parseErrorMessage (s : String) : String :=
  "invalid cluster version " ++ Text.quote s ++ ": expected <major>.<minor>"

/-- a text that is no version, as it was given -/
structure ParseError where
  input : String
deriving DecidableEq, Repr

def ParseError.message (e : ParseError) : String := parseErrorMessage e.input

/-- the version that a text is, or the text -/
def parse (s : String) : Except ParseError Version :=
  match parse? s with
  | some v => .ok v
  | none => .error ⟨s⟩

end Version

end Changefeed
