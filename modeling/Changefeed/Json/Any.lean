/-
Documents as values: what a text means when nothing is known of its type. Numbers are whole and fit a
word of 64 bits, signed or unsigned. The members of an object are in the order of their names, and the
last of several with one name counts. Documents nest at most 127 deep.
-/
import Changefeed.Json.Read
import Changefeed.Wire.Value
namespace Changefeed.Json

/-- a whole number of 64 bits, signed or unsigned -/
structure Whole where
  val : Int
  le : -(Width.w64.half : Int) ≤ val
  lt : val < Width.w64.count
deriving DecidableEq, Repr

def Whole.ofInt? (i : Int) : Option Whole :=
  if h : -(Width.w64.half : Int) ≤ i ∧ i < Width.w64.count then some ⟨i, h.1, h.2⟩ else none

inductive Any where
  | null
  | bool (b : Bool)
  | number (n : Whole)
  | string (s : String)
  | array (items : List Any)
  | object (members : List (String × Any))
deriving Inhabited

namespace Any

/-- how deep documents nest at most -/
def maxDepth : Nat := 127

mutual

/-- the value of a document that nests at most `depth` deep -/
def ofDoc? (depth : Nat) : Doc → Option Any
  | .null => some .null
  | .bool b => some (.bool b)
  | .number lexeme => ((Numeral.read? lexeme).bind Whole.ofInt?).map .number
  | .string body => (Quoted.decode? body).map .string
  | .array items =>
    if depth = 0 then none else (ofDocs? (depth - 1) items).map .array
  | .object members =>
    if depth = 0 then none
    else (ofMembers? (depth - 1) members).map fun ms =>
      .object (ms.foldl (fun placed m => Directory.place m.1 m.2 placed) [])

def ofDocs? (depth : Nat) : List Doc → Option (List Any)
  | [] => some []
  | t :: ts => do
    let v ← ofDoc? depth t
    return v :: (← ofDocs? depth ts)

def ofMembers? (depth : Nat) : List (Bytes × Doc) → Option (List (String × Any))
  | [] => some []
  | (k, t) :: ms => do
    let k ← Quoted.decode? k
    let v ← ofDoc? depth t
    return (k, v) :: (← ofMembers? depth ms)

end

instance : OfDoc Any where
  ofDoc? := ofDoc? maxDepth

open Wire

theorem toNat_lt (n : Whole) : n.val.toNat < Width.w64.count := by
  have := n.lt
  have : 0 < Width.w64.count := by decide
  omega

mutual

/-- a document as a value to be written -/
def toValue : Any → Value
  | null => .unit
  | bool b => .bool b
  | number n =>
    if h : n.val < Width.w64.half then .signed .w64 ⟨n.val, n.le, h⟩
    else .unsigned .w64 ⟨n.val.toNat, toNat_lt n⟩
  | string s => .text s
  | array items => .seq (toValues items)
  | object members => .map (toEntries members)

def toValues : List Any → List Value
  | [] => []
  | v :: vs => v.toValue :: toValues vs

def toEntries : List (String × Any) → List (Value × Value)
  | [] => []
  | (k, v) :: ms => (.text k, v.toValue) :: toEntries ms

end

end Any

end Changefeed.Json
