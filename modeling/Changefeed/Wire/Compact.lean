/-
Reading typed values from their compact form. Reading takes what belongs to the value and leaves the
rest.
-/
import Changefeed.Wire.Varint
import Changefeed.Directory
namespace Changefeed.Wire

/-- types that can be read from the compact form; gives the value and the bytes behind it -/
class OfCompact (α : Type) where
  ofCompact? : Bytes → Option (α × Bytes)

export OfCompact (ofCompact?)

/-- reads so many values -/
def readMany? {α : Type} [OfCompact α] : Nat → Bytes → Option (List α × Bytes)
  | 0, bytes => some ([], bytes)
  | n + 1, bytes => do
    let (a, bytes) ← ofCompact? bytes
    let (as, bytes) ← readMany? n bytes
    return (a :: as, bytes)

/-- reads a length -/
def readLength? (bytes : Bytes) : Option (Nat × Bytes) := Varint.read? .w64 bytes

instance : OfCompact Bool where
  ofCompact?
    | 0 :: rest => some (false, rest)
    | 1 :: rest => some (true, rest)
    | _ => none

instance : OfCompact Unit where
  ofCompact? bytes := some ((), bytes)

instance : OfCompact Char where
  ofCompact? := Utf8.decodeChar?

instance : OfCompact String where
  ofCompact? bytes := do
    let (n, rest) ← readLength? bytes
    let (front, rest) ← Varint.splitAt? n rest
    return (← ofUtf8? front, rest)

/-- one byte as it is, wider numbers in as many bytes as they need -/
instance {w : Width} : OfCompact (Unsigned w) where
  ofCompact? bytes := do
    let (n, rest) ← if w = .w8 then Varint.readLittle? 1 bytes else Varint.read? w bytes
    return (← Unsigned.ofNat? w n, rest)

instance {w : Width} : OfCompact (Signed w) where
  ofCompact? bytes :=
    if w = .w8 then do
      let (n, rest) ← Varint.readLittle? 1 bytes
      return (← Signed.ofInt? w (if n < 128 then (n : Int) else (n : Int) - 256), rest)
    else do
      let (n, rest) ← Varint.read? w bytes
      return (← Signed.ofInt? w (Varint.unfold n), rest)

variable {α β : Type} [OfCompact α] [OfCompact β]

instance : OfCompact (Option α) where
  ofCompact?
    | 0 :: rest => some (none, rest)
    | 1 :: rest => do
      let (a, rest) ← ofCompact? rest
      return (some a, rest)
    | _ => none

instance : OfCompact (List α) where
  ofCompact? bytes := do
    let (n, rest) ← readLength? bytes
    readMany? n rest

instance : OfCompact (α × β) where
  ofCompact? bytes := do
    let (a, bytes) ← ofCompact? bytes
    let (b, bytes) ← ofCompact? bytes
    return ((a, b), bytes)

instance : OfCompact (Directory α) where
  ofCompact? bytes := do
    let (n, rest) ← readLength? bytes
    let (entries, rest) ← readMany? (α := String × α) n rest
    return (Directory.ofList entries, rest)

end Changefeed.Wire
