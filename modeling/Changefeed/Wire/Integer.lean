/-
Whole numbers of fixed width, unsigned and signed.
-/
namespace Changefeed

inductive Width where
  | w8
  | w16
  | w32
  | w64
  | w128
deriving DecidableEq, Repr, Inhabited

namespace Width

def bytes : Width → Nat
  | w8 => 1
  | w16 => 2
  | w32 => 4
  | w64 => 8
  | w128 => 16

def bits (w : Width) : Nat := 8 * w.bytes

/-- how many numbers there are of the width -/
def count (w : Width) : Nat := Nat.pow 2 w.bits

/-- how many of them are negative in two's complement -/
def half (w : Width) : Nat := Nat.pow 2 (w.bits - 1)

end Width

/-- a number from `0` to the greatest of its width -/
structure Unsigned (w : Width) where
  val : Nat
  lt : val < w.count
deriving DecidableEq, Repr

/-- a number in two's complement of its width -/
structure Signed (w : Width) where
  val : Int
  le : -(w.half : Int) ≤ val
  lt : val < w.half
deriving DecidableEq, Repr

namespace Unsigned

def ofNat? (w : Width) (n : Nat) : Option (Unsigned w) :=
  if h : n < w.count then some ⟨n, h⟩ else none

@[simp] theorem ofNat?_val {w : Width} (n : Unsigned w) : ofNat? w n.val = some n := by
  simp [ofNat?, n.lt]

/-- a word of 32 bits -/
def ofUInt32 (n : UInt32) : Unsigned .w32 := ⟨n.toNat, n.toNat_lt⟩

def toUInt32 (n : Unsigned .w32) : UInt32 := UInt32.ofNat n.val

@[simp] theorem toUInt32_ofUInt32 (n : UInt32) : (ofUInt32 n).toUInt32 = n := by
  simp [ofUInt32, toUInt32]

end Unsigned

namespace Signed

def ofInt? (w : Width) (i : Int) : Option (Signed w) :=
  if h : -(w.half : Int) ≤ i ∧ i < w.half then some ⟨i, h.1, h.2⟩ else none

@[simp] theorem ofInt?_val {w : Width} (i : Signed w) : ofInt? w i.val = some i := by
  simp [ofInt?, i.le, i.lt]

end Signed

end Changefeed
