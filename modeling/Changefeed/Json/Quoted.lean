/-
The bodies of strings: quotes, backslashes and control characters are escaped, all else stands for
itself. Reading also takes escapes that writing does not use; an escape can name half of a pair of
surrogates only if the other half follows.
-/
import Changefeed.Text.Utf8
namespace Changefeed.Json.Quoted

def hexDigit (n : Nat) : Char := Nat.digitChar n

/-- a character as it stands in a string -/
def escape (c : Char) : List Char :=
  match c with
  | '"' => ['\\', '"']
  | '\\' => ['\\', '\\']
  | '\x08' => ['\\', 'b']
  | '\x0c' => ['\\', 'f']
  | '\n' => ['\\', 'n']
  | '\r' => ['\\', 'r']
  | '\t' => ['\\', 't']
  | c =>
    if c.toNat < 0x20 then ['\\', 'u', '0', '0', hexDigit (c.toNat / 16), hexDigit (c.toNat % 16)]
    else [c]

/-- the body of a string -/
def encode (s : String) : Bytes := Utf8.encode (s.toList.flatMap escape)

/-- a reader between two characters of a body: what was read, last first, and the first half of a
pair of surrogates that waits for the second -/
inductive Reader where
  | plain (read : List Char)
  /-- a first half was read, and an escape must follow -/
  | half (read : List Char) (high : Nat)
  /-- behind a backslash -/
  | escape (read : List Char) (high : Option Nat)
  /-- inside a numeric escape -/
  | hex (read : List Char) (high : Option Nat) (left code : Nat)
  | bad

def hexValue? (c : Char) : Option Nat :=
  if '0' ≤ c ∧ c ≤ '9' then some (c.toNat - '0'.toNat)
  else if 'a' ≤ c ∧ c ≤ 'f' then some (c.toNat - 'a'.toNat + 10)
  else if 'A' ≤ c ∧ c ≤ 'F' then some (c.toNat - 'A'.toNat + 10)
  else none

/-- what a one-letter escape stands for -/
def named? : Char → Option Char
  | '"' => some '"'
  | '\\' => some '\\'
  | '/' => some '/'
  | 'b' => some '\x08'
  | 'f' => some '\x0c'
  | 'n' => some '\n'
  | 'r' => some '\r'
  | 't' => some '\t'
  | _ => none

namespace Reader

def isHigh (n : Nat) : Bool := 0xd800 ≤ n && n < 0xdc00

def isLow (n : Nat) : Bool := 0xdc00 ≤ n && n < 0xe000

/-- a numeric escape is complete -/
def unit (read : List Char) (high : Option Nat) (code : Nat) : Reader :=
  match high with
  | some high =>
    if isLow code then
      plain (Char.ofNat (0x10000 + (high - 0xd800) * 0x400 + (code - 0xdc00)) :: read)
    else bad
  | none =>
    if isHigh code then half read code
    else if isLow code then bad
    else plain (Char.ofNat code :: read)

def step : Reader → Char → Reader
  | plain read, c =>
    if c = '\\' then .escape read none
    else if c = '"' ∨ c.toNat < 0x20 then bad
    else plain (c :: read)
  | half read high, c => if c = '\\' then .escape read (some high) else bad
  | .escape read high, c =>
    if c = 'u' then hex read high 4 0
    else match high, named? c with
      | none, some d => plain (d :: read)
      | _, _ => bad
  | hex read high left code, c =>
    match hexValue? c with
    | none => bad
    | some d => if left ≤ 1 then unit read high (code * 16 + d) else hex read high (left - 1) (code * 16 + d)
  | bad, _ => bad

end Reader

/-- the text that a body stands for -/
def decode? (body : Bytes) : Option String :=
  match Utf8.decode? body with
  | none => none
  | some cs =>
    match cs.foldl Reader.step (.plain []) with
    | .plain read => some (String.ofList read.reverse)
    | _ => none

end Changefeed.Json.Quoted
