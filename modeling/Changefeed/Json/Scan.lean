/-
Reading a document: a machine that takes the text byte by byte, with a stack of the arrays and objects
that are still open. It checks the grammar only. Blanks are allowed between tokens, nesting is not
limited, and after the first complete value it tells a text that ends there from one that goes on.
-/
import Changefeed.Json.Doc
namespace Changefeed.Json

open Doc

/-- an array or object that is still open, what it holds so far in reverse; an object may have read a
key whose value is still to come -/
inductive Frame where
  | array (items : List Doc)
  | object (members : List (Bytes × Doc)) (key : Option Bytes)

/-- how much of a number has been read -/
inductive NumberPart where
  | minus
  | zero
  | digits
  | point
  | fraction
  | exponent
  | exponentSign
  | exponentDigits
deriving DecidableEq, Repr

/-- what the machine expects -/
inductive Mode where
  | value
  /-- the first item of an array, or its end -/
  | firstItem
  /-- the first key of an object, or its end -/
  | firstKey
  | key
  | colon
  /-- inside a string, whose body so far is held in reverse -/
  | string (body : Bytes)
  /-- behind a backslash -/
  | escape (body : Bytes)
  /-- inside an escape that wants more hexadecimal digits -/
  | hex (left : Nat) (body : Bytes)
  /-- inside a word for a constant -/
  | word (rest : Bytes) (value : Doc)
  /-- inside a number, held in reverse -/
  | number (part : NumberPart) (lexeme : List Char)
  /-- behind a value of the innermost array or object -/
  | next
  /-- behind the document -/
  | done (document : Doc)
  /-- behind the document, and something follows it -/
  | more (document : Doc)
  | bad

structure Machine where
  stack : List Frame
  mode : Mode

/-- what a text is -/
inductive Scan where
  | document (t : Doc)
  /-- a document with something behind it -/
  | trailing (t : Doc)
  | malformed

def isSpace (b : UInt8) : Bool := b = 0x20 || b = 0x0a || b = 0x09 || b = 0x0d

def isDigit (b : UInt8) : Bool := 0x30 ≤ b && b ≤ 0x39

def isHexDigit (b : UInt8) : Bool :=
  isDigit b || (0x41 ≤ b && b ≤ 0x46) || (0x61 ≤ b && b ≤ 0x66)

/-- the character of a byte below 128 -/
def charOf (b : UInt8) : Char := Char.ofNat b.toNat

namespace NumberPart

/-- the number goes on with this byte -/
def step? (p : NumberPart) (b : UInt8) : Option NumberPart :=
  let point := if b = 0x2e then some point else none
  let exponent := if b = 0x65 || b = 0x45 then some exponent else none
  match p with
  | minus => if b = 0x30 then some zero else if isDigit b then some digits else none
  | zero => point <|> exponent
  | digits => if isDigit b then some digits else point <|> exponent
  | .point => if isDigit b then some fraction else none
  | fraction => if isDigit b then some fraction else exponent
  | .exponent =>
    if isDigit b then some exponentDigits
    else if b = 0x2b || b = 0x2d then some exponentSign else none
  | exponentSign => if isDigit b then some exponentDigits else none
  | exponentDigits => if isDigit b then some exponentDigits else none

/-- the number may end here -/
def complete : NumberPart → Bool
  | zero | digits | fraction | exponentDigits => true
  | _ => false

end NumberPart

namespace Machine

def start : Machine := ⟨[], .value⟩

def fail : Machine := ⟨[], .bad⟩

/-- a value is complete: it goes into the innermost open array or object, or is the document -/
def complete (t : Doc) : List Frame → Machine
  | [] => ⟨[], .done t⟩
  | .array items :: stack => ⟨.array (t :: items) :: stack, .next⟩
  | .object members (some k) :: stack => ⟨.object ((k, t) :: members) none :: stack, .next⟩
  | .object _ none :: _ => fail

/-- a string is complete: a key where an object expects one, else a value -/
def completeString (body : Bytes) : List Frame → Machine
  | .object members none :: stack => ⟨.object members (some body) :: stack, .colon⟩
  | stack => complete (.string body) stack

/-- a value begins -/
def begin (stack : List Frame) (b : UInt8) : Machine :=
  if b = quote then ⟨stack, .string []⟩
  else if b = openBracket then ⟨.array [] :: stack, .firstItem⟩
  else if b = openBrace then ⟨.object [] none :: stack, .firstKey⟩
  else if b = 0x6e then ⟨stack, .word (utf8 "ull") .null⟩
  else if b = 0x74 then ⟨stack, .word (utf8 "rue") (.bool true)⟩
  else if b = 0x66 then ⟨stack, .word (utf8 "alse") (.bool false)⟩
  else if b = 0x2d then ⟨stack, .number .minus ['-']⟩
  else if b = 0x30 then ⟨stack, .number .zero ['0']⟩
  else if isDigit b then ⟨stack, .number .digits [charOf b]⟩
  else fail

/-- the innermost array or object ends -/
def close (stack : List Frame) (b : UInt8) : Machine :=
  match stack with
  | .array items :: stack => if b = closeBracket then complete (.array items.reverse) stack else fail
  | .object members none :: stack =>
    if b = closeBrace then complete (.object members.reverse) stack else fail
  | _ => fail

/-- behind a complete value -/
def stepBehind (m : Machine) (b : UInt8) : Machine :=
  match m.mode with
  | .next =>
    if isSpace b then m
    else if b = comma then
      match m.stack with
      | .array _ :: _ => ⟨m.stack, .value⟩
      | _ => ⟨m.stack, .key⟩
    else close m.stack b
  | .done t => if isSpace b then m else ⟨[], .more t⟩
  | _ => m

/-- takes one byte -/
def step (m : Machine) (b : UInt8) : Machine :=
  match m.mode with
  | .value => if isSpace b then m else begin m.stack b
  | .firstItem =>
    if isSpace b then m
    else if b = closeBracket then close m.stack b else begin m.stack b
  | .firstKey =>
    if isSpace b then m
    else if b = quote then ⟨m.stack, .string []⟩ else close m.stack b
  | .key => if isSpace b then m else if b = quote then ⟨m.stack, .string []⟩ else fail
  | .colon => if isSpace b then m else if b = Doc.colon then ⟨m.stack, .value⟩ else fail
  | .string body =>
    if b = quote then completeString body.reverse m.stack
    else if b = backslash then ⟨m.stack, .escape (b :: body)⟩
    else if b < 0x20 then fail
    else ⟨m.stack, .string (b :: body)⟩
  | .escape body =>
    if b = 0x75 then ⟨m.stack, .hex 4 (b :: body)⟩
    else if (utf8 "\"\\/bfnrt").contains b then ⟨m.stack, .string (b :: body)⟩
    else fail
  | .hex left body =>
    if isHexDigit b then
      ⟨m.stack, if left ≤ 1 then .string (b :: body) else .hex (left - 1) (b :: body)⟩
    else fail
  | .word rest t =>
    match rest with
    | [] => fail
    | [c] => if b = c then complete t m.stack else fail
    | c :: rest => if b = c then ⟨m.stack, .word rest t⟩ else fail
  | .number part lexeme =>
    match part.step? b with
    | some part => ⟨m.stack, .number part (charOf b :: lexeme)⟩
    | none =>
      if part.complete then stepBehind (complete (.number lexeme.reverse) m.stack) b else fail
  | .next => stepBehind m b
  | .done _ => stepBehind m b
  | .more _ => m
  | .bad => m

/-- what has been read when the text ends -/
def finish (m : Machine) : Scan :=
  match m.mode with
  | .done t => .document t
  | .more t => .trailing t
  | .number part lexeme =>
    match part.complete, m.stack with
    | true, [] => .document (.number lexeme.reverse)
    | _, _ => .malformed
  | _ => .malformed

end Machine

/-- reads a text -/
def scan (text : Bytes) : Scan := (text.foldl Machine.step Machine.start).finish

/-- the document that a text is -/
def parse? (text : Bytes) : Option Doc :=
  match scan text with
  | .document t => some t
  | _ => none

end Changefeed.Json
