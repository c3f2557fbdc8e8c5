/-
Values to be given a wire form, and their two forms.

The text form is a document. Map keys are strings there: characters, whole numbers, truth values and
present optional keys are turned into one, and no other key has a text form.

The compact form names neither types nor fields. Numbers are as long as they need to be, except
those of one byte; strings, byte strings, sequences and maps begin with their length.

A value can refuse to be written; of several that do, the first one in the order of writing counts.
Its reason is quoted by the compact form. The text form takes a place at the end of the reason for its
own and writes it as places are written.
-/
import Changefeed.Event
import Changefeed.Json.Doc
import Changefeed.Json.Quoted
import Changefeed.Json.Numeral
import Changefeed.Json.Place
import Changefeed.Text.Escaped
import Changefeed.Wire.Varint
namespace Changefeed.Wire

inductive Value where
  | unit
  | bool (b : Bool)
  | unsigned (w : Width) (n : Unsigned w)
  | signed (w : Width) (i : Signed w)
  | char (c : Char)
  | text (s : String)
  | bytes (b : Bytes)
  /-- an optional value that is not there -/
  | absent
  | present (v : Value)
  | seq (items : List Value)
  /-- as many items as its type says -/
  | tuple (items : List Value)
  | map (entries : List (Value × Value))
  /-- the fields of a structure -/
  | fields (fields : List (String × Value))
  /-- one of several alternatives without contents, with its position among them -/
  | alternative (position : Nat) (name : String)
  /-- refuses to be written -/
  | refusing (reason : String)
deriving Inhabited

namespace Value

/-- a whole number in a document -/
def numeral (i : Int) : Json.Doc := .number (Json.Numeral.write i)

/-- a map key as a string -/
def keyText : Value → Except WireError String
  | text s => .ok s
  | char c => .ok (String.ofList [c])
  | bool b => .ok (toString b)
  | unsigned _ n => .ok (toString n.val)
  | signed _ i => .ok (toString i.val)
  | present v => v.keyText
  | alternative _ name => .ok name
  | refusing reason => .error ⟨Json.Place.settle reason⟩
  | _ => .error ⟨"key must be a string"⟩

mutual

/-- the document of a value -/
def toDoc : Value → Except WireError Json.Doc
  | unit => .ok .null
  | bool b => .ok (.bool b)
  | unsigned _ n => .ok (numeral n.val)
  | signed _ i => .ok (numeral i.val)
  | char c => .ok (.string (Json.Quoted.encode (String.ofList [c])))
  | text s => .ok (.string (Json.Quoted.encode s))
  | bytes b => .ok (.array (b.map fun x => numeral x.toNat))
  | absent => .ok .null
  | present v => v.toDoc
  | seq items => do return .array (← toDocs items)
  | tuple items => do return .array (← toDocs items)
  | map entries => do return .object (← entryDocs entries)
  | fields fs => do return .object (← fieldDocs fs)
  | alternative _ name => .ok (.string (Json.Quoted.encode name))
  | refusing reason => .error ⟨Json.Place.settle reason⟩

def toDocs : List Value → Except WireError (List Json.Doc)
  | [] => .ok []
  | v :: vs => do
    let t ← v.toDoc
    return t :: (← toDocs vs)

def entryDocs : List (Value × Value) → Except WireError (List (Bytes × Json.Doc))
  | [] => .ok []
  | (k, v) :: es => do
    let k ← k.keyText
    let t ← v.toDoc
    return (Json.Quoted.encode k, t) :: (← entryDocs es)

def fieldDocs : List (String × Value) → Except WireError (List (Bytes × Json.Doc))
  | [] => .ok []
  | (name, v) :: fs => do
    let t ← v.toDoc
    return (Json.Quoted.encode name, t) :: (← fieldDocs fs)

end

/-- the text form of a value -/
def toText (v : Value) : Except WireError Bytes := do return (← v.toDoc).write

/-- a length -/
def lengthBytes (n : Nat) : Bytes := Varint.write n

mutual

/-- the compact form of a value -/
def toCompact : Value → Except WireError Bytes
  | unit => .ok []
  | bool b => .ok [if b then 1 else 0]
  | unsigned w n => .ok (if w = .w8 then [.ofNat n.val] else Varint.write n.val)
  | signed w i =>
    .ok (if w = .w8 then [.ofNat (i.val % 256).toNat] else Varint.write (Varint.fold i.val))
  | char c => .ok (Utf8.encodeChar c)
  | text s => .ok (lengthBytes (utf8 s).length ++ utf8 s)
  | bytes b => .ok (lengthBytes b.length ++ b)
  | absent => .ok [0]
  | present v => do return 1 :: (← v.toCompact)
  | seq items => do return lengthBytes items.length ++ (← allCompact items)
  | tuple items => allCompact items
  | map entries => do return lengthBytes entries.length ++ (← entriesCompact entries)
  | fields fs => fieldsCompact fs
  | alternative position _ => .ok (Varint.write position)
  | refusing reason => .error ⟨"OtherString(" ++ Text.quote reason ++ ")"⟩

def allCompact : List Value → Except WireError Bytes
  | [] => .ok []
  | v :: vs => do
    let b ← v.toCompact
    return b ++ (← allCompact vs)

def entriesCompact : List (Value × Value) → Except WireError Bytes
  | [] => .ok []
  | (k, v) :: es => do
    let k ← k.toCompact
    let v ← v.toCompact
    return k ++ v ++ (← entriesCompact es)

def fieldsCompact : List (String × Value) → Except WireError Bytes
  | [] => .ok []
  | (_, v) :: fs => do
    let b ← v.toCompact
    return b ++ (← fieldsCompact fs)

end

/-! What the compact form of a whole says of its parts. -/

theorem toCompact_present (v : Value) : (present v).toCompact = do return 1 :: (← v.toCompact) := rfl

theorem toCompact_seq (items : List Value) :
    (seq items).toCompact = do return lengthBytes items.length ++ (← allCompact items) := rfl

theorem toCompact_tuple (items : List Value) : (tuple items).toCompact = allCompact items := rfl

theorem toCompact_map (entries : List (Value × Value)) :
    (map entries).toCompact = do return lengthBytes entries.length ++ (← entriesCompact entries) := rfl

theorem toCompact_fields (fs : List (String × Value)) : (fields fs).toCompact = fieldsCompact fs := rfl

theorem allCompact_nil : allCompact [] = .ok [] := rfl

theorem allCompact_cons (v : Value) (vs : List Value) :
    allCompact (v :: vs) = do
      let b ← v.toCompact
      return b ++ (← allCompact vs) := rfl

theorem entriesCompact_cons (k v : Value) (es : List (Value × Value)) :
    entriesCompact ((k, v) :: es) = do
      let k ← k.toCompact
      let v ← v.toCompact
      return k ++ v ++ (← entriesCompact es) := rfl

theorem fieldsCompact_cons (name : String) (v : Value) (fs : List (String × Value)) :
    fieldsCompact ((name, v) :: fs) = do
      let b ← v.toCompact
      return b ++ (← fieldsCompact fs) := rfl

end Value

end Changefeed.Wire
