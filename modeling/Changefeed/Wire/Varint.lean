/-
Whole numbers in as few bytes as they need. A number below 251 is one byte; a greater one is a marker
and two, four, eight or sixteen bytes, the low ones first. Signed numbers are first folded so that
small amounts stay small: 0, -1, 1, -2, 2 and so on count up from zero.

Results:
- `splitAt?_append`: bytes are split where they were joined;
- `readLittle?_little`: bytes of a fixed number are read back;
- `unfold_fold`: folding loses nothing.
-/
import Changefeed.Wire.Integer
import Changefeed.Text.Utf8
namespace Changefeed.Varint

/-- the `k` low bytes of a number, the lowest first -/
def little : Nat → Nat → Bytes
  | 0, _ => []
  | k + 1, n => .ofNat (n % 256) :: little k (n / 256)

/-- the number of which these are the bytes -/
def ofLittle : Bytes → Nat
  | [] => 0
  | b :: rest => b.toNat + 256 * ofLittle rest

/-- the first `k` bytes and those behind them -/
def splitAt? (k : Nat) (bytes : Bytes) : Option (Bytes × Bytes) :=
  let front := bytes.take k
  if front.length = k then some (front, bytes.drop k) else none

/-- the number in the first `k` bytes, and the bytes behind them -/
def readLittle? (k : Nat) (bytes : Bytes) : Option (Nat × Bytes) :=
  (splitAt? k bytes).map fun p => (ofLittle p.1, p.2)

/-- a number of at most 128 bits -/
def write (n : Nat) : Bytes :=
  if n < 251 then [.ofNat n]
  else if n < Width.w16.count then 251 :: little 2 n
  else if n < Width.w32.count then 252 :: little 4 n
  else if n < Width.w64.count then 253 :: little 8 n
  else 254 :: little 16 n

/-- how many bytes follow a marker -/
def following? (marker : UInt8) : Option Nat :=
  if marker = 251 then some 2
  else if marker = 252 then some 4
  else if marker = 253 then some 8
  else if marker = 254 then some 16
  else none

/-- reads a number of a width; markers of wider numbers are refused, those of narrower ones are not,
even if fewer bytes would have done -/
def read? (w : Width) : Bytes → Option (Nat × Bytes)
  | [] => none
  | b :: rest =>
    if b < 251 then some (b.toNat, rest)
    else match following? b with
      | none => none
      | some k => if k ≤ w.bytes then readLittle? k rest else none

/-- counts `0, -1, 1, -2, 2` and so on -/
def fold (i : Int) : Nat := if 0 ≤ i then (2 * i).toNat else (-2 * i - 1).toNat

def unfold (n : Nat) : Int := if n % 2 = 0 then (n / 2 : Nat) else -((n / 2 : Nat) : Int) - 1

theorem length_little (k n : Nat) : (little k n).length = k := by
  induction k generalizing n with
  | zero => rfl
  | succ k ih => simp [little, ih]

theorem ofLittle_little (k n : Nat) (h : n < Nat.pow 256 k) : ofLittle (little k n) = n := by
  induction k generalizing n with
  | zero =>
    have h : n < 1 := h
    obtain rfl : n = 0 := by omega
    rfl
  | succ k ih =>
    have h' : n / 256 < Nat.pow 256 k := (Nat.div_lt_iff_lt_mul (by omega)).2 h
    have e : (UInt8.ofNat (n % 256)).toNat = n % 256 := by simp
    simp only [little, ofLittle, ih _ h', e]
    omega

/-- bytes are split where they were joined -/
theorem splitAt?_append (front rest : Bytes) :
    splitAt? front.length (front ++ rest) = some (front, rest) := by
  simp [splitAt?]

/-- bytes of a fixed number are read back -/
theorem readLittle?_little {k n : Nat} (h : n < Nat.pow 256 k) (rest : Bytes) :
    readLittle? k (little k n ++ rest) = some (n, rest) := by
  have := splitAt?_append (little k n) rest
  rw [length_little] at this
  simp [readLittle?, this, ofLittle_little k n h]

/-- folding loses nothing -/
theorem unfold_fold (i : Int) : unfold (fold i) = i := by
  unfold unfold fold
  split <;> split <;> omega

end Changefeed.Varint
