/-
Orders: a structure with a wire form in both formats, as map values are.
-/
import Changefeed.Wire.Format
namespace Changefeed.Wire

structure Order where
  id : Unsigned .w64
  symbol : String
deriving DecidableEq, Repr

instance : ToValue Order :=
  ⟨fun o => .fields [("id", toValue o.id), ("symbol", toValue o.symbol)]⟩

instance : Json.OfDoc Order where
  ofDoc? t := do
    match ← t.fields? ["id", "symbol"] false with
    | [id, symbol] => return ⟨← Json.required id, ← Json.required symbol⟩
    | _ => none

instance : OfCompact Order where
  ofCompact? bytes := do
    let (id, bytes) ← ofCompact? bytes
    let (symbol, bytes) ← ofCompact? bytes
    return (⟨id, symbol⟩, bytes)

end Changefeed.Wire
