/-
Reading typed values from documents. A structure is read from an object, whose unknown members are
passed over unread, or from an array of its fields in order. A sequence is an array, a map an object
in which the last of several members with one name counts.
-/
import Changefeed.Json.Scan
import Changefeed.Json.Quoted
import Changefeed.Json.Numeral
import Changefeed.Directory
import Changefeed.Wire.Integer
namespace Changefeed.Json

/-- types that can be read from documents -/
class OfDoc (α : Type) where
  ofDoc? : Doc → Option α

export OfDoc (ofDoc?)

/-- the value of a type that a text is a document of -/
def read? {α : Type} [OfDoc α] (text : Bytes) : Option α := (parse? text).bind ofDoc?

/-- the text of a string -/
def Doc.text? : Doc → Option String
  | .string body => Quoted.decode? body
  | _ => none

/-- the fields of a structure in the order of their names, `none` for one that is not given; an array
gives them in order, and `short` says whether it may leave out the last ones; no field may be given
twice -/
def Doc.fields? (names : List String) (short : Bool) : Doc → Option (List (Option Doc))
  | .array items =>
    if items.length = names.length ∨ (short ∧ items.length < names.length) then
      some ((List.range names.length).map fun i => items[i]?)
    else none
  | .object members => do
    let named ← members.mapM fun m => do return (← Quoted.decode? m.1, m.2)
    names.mapM fun name =>
      match named.filter fun m => m.1 = name with
      | [] => some none
      | [m] => some (some m.2)
      | _ => none
  | _ => none

/-- a field that has to be there -/
def required {α : Type} [OfDoc α] (field : Option Doc) : Option α := field.bind ofDoc?

/-- a field that has a value of its own if it is not given -/
def withDefault {α : Type} [OfDoc α] (value : α) : Option Doc → Option α
  | none => some value
  | some t => ofDoc? t

/-- one of several names, alone or as the only member of an object, where it has nothing to say -/
def Doc.alternative? {α : Type} (names : List (String × α)) (t : Doc) : Option α :=
  let name? := match t with
    | .string body => Quoted.decode? body
    | .object [(key, .null)] => Quoted.decode? key
    | _ => none
  name?.bind fun name => (names.find? fun n => n.1 = name).map Prod.snd

instance : OfDoc Bool where
  ofDoc?
    | .bool b => some b
    | _ => none

instance : OfDoc Unit where
  ofDoc?
    | .null => some ()
    | _ => none

instance : OfDoc String where
  ofDoc? := Doc.text?

/-- a string of one character -/
instance : OfDoc Char where
  ofDoc? t :=
    match t.text?.map String.toList with
    | some [c] => some c
    | _ => none

instance {w : Width} : OfDoc (Unsigned w) where
  ofDoc?
    | .number lexeme =>
      match Numeral.signed? lexeme with
      | some (false, n) => Unsigned.ofNat? w n
      | _ => none
    | _ => none

/-- a minus sign is no part of zero, except in the widest numbers -/
instance {w : Width} : OfDoc (Signed w) where
  ofDoc?
    | .number lexeme =>
      match Numeral.signed? lexeme with
      | some (false, n) => Signed.ofInt? w n
      | some (true, n) => if n = 0 ∧ w ≠ .w128 then none else Signed.ofInt? w (-n)
      | none => none
    | _ => none

instance : OfDoc UInt32 where
  ofDoc? t := (ofDoc? t : Option (Unsigned .w32)).map Unsigned.toUInt32

variable {α β : Type} [OfDoc α] [OfDoc β]

instance : OfDoc (Option α) where
  ofDoc?
    | .null => some none
    | t => (ofDoc? t).map some

instance : OfDoc (List α) where
  ofDoc?
    | .array items => items.mapM ofDoc?
    | _ => none

instance : OfDoc (α × β) where
  ofDoc?
    | .array [a, b] => do return (← ofDoc? a, ← ofDoc? b)
    | _ => none

instance : OfDoc (Directory α) where
  ofDoc?
    | .object members => do
      let entries ← members.mapM fun m => do return (← Quoted.decode? m.1, ← ofDoc? m.2)
      return Directory.ofList entries
    | _ => none

end Changefeed.Json
