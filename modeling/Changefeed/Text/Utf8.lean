/-
Characters as bytes. A character takes one to four bytes: a first byte that tells how many follow, and
following bytes of six bits each. Reading takes the shortest form only, no surrogates, and nothing
beyond the last character.

Results:
- `decode?_encode`: what was written is read back.
-/
namespace Changefeed

abbrev Bytes := List UInt8

namespace Utf8

/-- the bytes of the character with a number -/
def encodeNat (n : Nat) : Bytes :=
  if n < 0x80 then [.ofNat n]
  else if n < 0x800 then [.ofNat (0xc0 + n / 64), .ofNat (0x80 + n % 64)]
  else if n < 0x10000 then
    [.ofNat (0xe0 + n / 4096), .ofNat (0x80 + n / 64 % 64), .ofNat (0x80 + n % 64)]
  else
    [.ofNat (0xf0 + n / 262144), .ofNat (0x80 + n / 4096 % 64), .ofNat (0x80 + n / 64 % 64),
      .ofNat (0x80 + n % 64)]

/-- the bytes of a character -/
def encodeChar (c : Char) : Bytes := encodeNat c.toNat

def encode (cs : List Char) : Bytes := cs.flatMap encodeChar

/-- a reader between two bytes: the characters read so far, last first, and in the middle of a
character how many bytes are missing, the least number that takes so many, and the bits so far -/
inductive Reader where
  | between (read : List Char)
  | inside (read : List Char) (missing least bits : Nat)
  | bad
deriving DecidableEq, Repr

/-- the character with a number, behind those already read -/
def Reader.finish (read : List Char) (n : Nat) : Reader :=
  if n.isValidChar then .between (Char.ofNat n :: read) else .bad

/-- reads one byte -/
def Reader.step : Reader → UInt8 → Reader
  | .between read, byte =>
    let b := byte.toNat
    if b < 0x80 then .finish read b
    else if b < 0xc0 then .bad
    else if b < 0xe0 then .inside read 1 0x80 (b - 0xc0)
    else if b < 0xf0 then .inside read 2 0x800 (b - 0xe0)
    else if b < 0xf8 then .inside read 3 0x10000 (b - 0xf0)
    else .bad
  | .inside read missing least bits, byte =>
    let b := byte.toNat
    let bits := bits * 64 + (b - 0x80)
    if b < 0x80 ∨ 0xc0 ≤ b then .bad
    else if 1 < missing then .inside read (missing - 1) least bits
    else if bits < least then .bad
    else .finish read bits
  | .bad, _ => .bad

/-- the characters of a text in bytes, if it is one -/
def decode? (bytes : Bytes) : Option (List Char) :=
  match bytes.foldl Reader.step (.between []) with
  | .between read => some read.reverse
  | _ => none

/-- how many bytes a character takes that begins with this byte, `0` if none does -/
def width (first : UInt8) : Nat :=
  let b := first.toNat
  if b < 0x80 then 1
  else if b < 0xc2 then 0
  else if b < 0xe0 then 2
  else if b < 0xf0 then 3
  else if b < 0xf5 then 4
  else 0

/-- the character that the bytes begin with, and the bytes behind it -/
def decodeChar? (bytes : Bytes) : Option (Char × Bytes) :=
  match bytes with
  | [] => none
  | first :: _ =>
    match decode? (bytes.take (width first)) with
    | some [c] => some (c, bytes.drop (width first))
    | _ => none

theorem finish_toNat (read : List Char) (c : Char) :
    Reader.finish read c.toNat = .between (c :: read) := by
  have h : c.toNat.isValidChar := c.valid
  simp [Reader.finish, h]

theorem toNat_lt (c : Char) : c.toNat < 0x110000 := by
  have h : c.toNat.isValidChar := c.valid
  rcases h with h | h <;> omega

/-- a following byte that is not the last -/
theorem step_following {read : List Char} {missing least bits x : Nat} (h : x < 64)
    (hm : 1 < missing) :
    Reader.step (.inside read missing least bits) (.ofNat (0x80 + x)) =
      .inside read (missing - 1) least (bits * 64 + x) := by
  have e : (UInt8.ofNat (0x80 + x)).toNat = 0x80 + x := by simp [UInt8.toNat_ofNat]; omega
  simp only [Reader.step, e]
  rw [if_neg (by omega), if_pos hm, Nat.add_sub_cancel_left]

/-- the last byte of a character -/
theorem step_last {read : List Char} {least bits x : Nat} (h : x < 64)
    (hl : least ≤ bits * 64 + x) :
    Reader.step (.inside read 1 least bits) (.ofNat (0x80 + x)) =
      Reader.finish read (bits * 64 + x) := by
  have e : (UInt8.ofNat (0x80 + x)).toNat = 0x80 + x := by simp [UInt8.toNat_ofNat]; omega
  simp only [Reader.step, e, Nat.add_sub_cancel_left]
  rw [if_neg (by omega), if_neg (by omega), if_neg (by omega)]

/-- the bytes of a number are read as this number -/
theorem foldl_encodeNat (read : List Char) {n : Nat} (hn : n < 0x110000) :
    (encodeNat n).foldl Reader.step (.between read) = Reader.finish read n := by
  unfold encodeNat
  split
  next h =>
    have e : (UInt8.ofNat n).toNat = n := by simp; omega
    simp [Reader.step, e, h]
  next h1 =>
    split
    next h2 =>
      have e : (UInt8.ofNat (0xc0 + n / 64)).toNat = 0xc0 + n / 64 := by
        simp [UInt8.toNat_ofNat]; omega
      have s1 : Reader.step (.between read) (.ofNat (0xc0 + n / 64)) =
          .inside read 1 0x80 (n / 64) := by
        simp only [Reader.step, e, Nat.add_sub_cancel_left]
        rw [if_neg (by omega), if_neg (by omega), if_pos (by omega)]
      simp only [List.foldl_cons, List.foldl_nil, s1]
      rw [step_last (by omega) (by omega)]
      congr 1
      omega
    next h2 =>
      split
      next h3 =>
        have e : (UInt8.ofNat (0xe0 + n / 4096)).toNat = 0xe0 + n / 4096 := by
          simp [UInt8.toNat_ofNat]; omega
        have s1 : Reader.step (.between read) (.ofNat (0xe0 + n / 4096)) =
            .inside read 2 0x800 (n / 4096) := by
          simp only [Reader.step, e, Nat.add_sub_cancel_left]
          rw [if_neg (by omega), if_neg (by omega), if_neg (by omega), if_pos (by omega)]
        simp only [List.foldl_cons, List.foldl_nil, s1]
        rw [step_following (by omega) (by omega), step_last (by omega) (by omega)]
        congr 1
        omega
      next h3 =>
        have e : (UInt8.ofNat (0xf0 + n / 262144)).toNat = 0xf0 + n / 262144 := by
          simp [UInt8.toNat_ofNat]; omega
        have s1 : Reader.step (.between read) (.ofNat (0xf0 + n / 262144)) =
            .inside read 3 0x10000 (n / 262144) := by
          simp only [Reader.step, e, Nat.add_sub_cancel_left]
          rw [if_neg (by omega), if_neg (by omega), if_neg (by omega), if_neg (by omega),
            if_pos (by omega)]
        simp only [List.foldl_cons, List.foldl_nil, s1]
        rw [step_following (by omega) (by omega), step_following (by omega) (by omega),
          step_last (by omega) (by omega)]
        congr 1
        omega

theorem foldl_encode (read cs : List Char) :
    (encode cs).foldl Reader.step (.between read) = .between (cs.reverse ++ read) := by
  induction cs generalizing read with
  | nil => rfl
  | cons c cs ih =>
    rw [encode, List.flatMap_cons, List.foldl_append, encodeChar, foldl_encodeNat _ (toNat_lt c),
      finish_toNat]
    simpa [encode] using ih (c :: read)

/-- what was written is read back -/
theorem decode?_encode (cs : List Char) : decode? (encode cs) = some cs := by
  simp [decode?, foldl_encode]

end Utf8

/-- the bytes of a text -/
def utf8 (s : String) : Bytes := Utf8.encode s.toList

/-- the text that the bytes are -/
def ofUtf8? (bytes : Bytes) : Option String := (Utf8.decode? bytes).map String.ofList

end Changefeed
