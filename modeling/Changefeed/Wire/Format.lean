/-
The two wire formats, and the types that have a form in them.
-/
import Changefeed.Wire.Value
import Changefeed.Wire.Compact
import Changefeed.Json.Any
namespace Changefeed.Wire

/-- types whose values can be written -/
class ToValue (α : Type) where
  toValue : α → Value

export ToValue (toValue)

instance : ToValue Value := ⟨id⟩

instance : ToValue Bool := ⟨.bool⟩

instance : ToValue Unit := ⟨fun _ => .unit⟩

instance : ToValue Char := ⟨.char⟩

instance : ToValue String := ⟨.text⟩

instance {w : Width} : ToValue (Unsigned w) := ⟨.unsigned w⟩

instance {w : Width} : ToValue (Signed w) := ⟨.signed w⟩

instance : ToValue UInt32 := ⟨fun n => .unsigned .w32 (Unsigned.ofUInt32 n)⟩

instance : ToValue Json.Any := ⟨Json.Any.toValue⟩

/-- documents of unknown type have no compact form to be read from -/
instance : OfCompact Json.Any := ⟨fun _ => none⟩

variable {α β : Type} [ToValue α] [ToValue β]

instance : ToValue (Option α) where
  toValue
    | none => .absent
    | some a => .present (toValue a)

instance : ToValue (List α) := ⟨fun as => .seq (as.map toValue)⟩

instance : ToValue (α × β) := ⟨fun p => .tuple [toValue p.1, toValue p.2]⟩

instance : ToValue (Directory α) :=
  ⟨fun d => .map (d.entries.map fun e => (.text e.1, toValue e.2))⟩

/-- how keys and values are put into bytes -/
inductive Format where
  | text
  | compact
deriving DecidableEq, Repr, Inhabited

namespace Format

def contentType : Format → String
  | text => "application/json"
  | compact => "application/x-bincode"

/-- the wire form of a value -/
def encode {γ : Type} [ToValue γ] (f : Format) (a : γ) : Except WireError Data :=
  match f with
  | text => (toValue a).toText
  | compact => (toValue a).toCompact

/-- the value of a type that has a wire form; the compact form may have more behind it -/
def decode? {γ : Type} [Json.OfDoc γ] [OfCompact γ] (f : Format) (d : Data) : Option γ :=
  match f with
  | text => Json.read? d
  | compact => (ofCompact? d).map Prod.fst

end Format

/-- wire data in reports -/
def describe (d : Data) : String := "Data \x7b len: " ++ toString d.length ++ " \x7d"

end Changefeed.Wire
