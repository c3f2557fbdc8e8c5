/-
Documents as written: the tree of a document's values, with numbers and string bodies kept in the
characters or bytes that stand in the text. What these mean is decided by whoever reads a value, so that
a value nobody reads need not mean anything.
-/
import Changefeed.Text.Utf8
namespace Changefeed.Json

inductive Doc where
  | null
  | bool (b : Bool)
  | number (lexeme : List Char)
  /-- what stands between the quotes -/
  | string (body : Bytes)
  | array (items : List Doc)
  /-- keys are string bodies too -/
  | object (members : List (Bytes × Doc))
deriving Inhabited

namespace Doc

def openBracket : UInt8 := 0x5b
def closeBracket : UInt8 := 0x5d
def openBrace : UInt8 := 0x7b
def closeBrace : UInt8 := 0x7d
def comma : UInt8 := 0x2c
def colon : UInt8 := 0x3a
def quote : UInt8 := 0x22
def backslash : UInt8 := 0x5c

/-- a string body in quotes -/
def quoted (body : Bytes) : Bytes := quote :: body ++ [quote]

mutual

/-- the text of a document, without blanks -/
def write : Doc → Bytes
  | null => utf8 "null"
  | bool true => utf8 "true"
  | bool false => utf8 "false"
  | number lexeme => Utf8.encode lexeme
  | string body => quoted body
  | array [] => [openBracket, closeBracket]
  | array (t :: ts) => openBracket :: (t.write ++ writeItems ts)
  | object [] => [openBrace, closeBrace]
  | object ((k, t) :: ms) => openBrace :: (quoted k ++ colon :: (t.write ++ writeMembers ms))

/-- the items after the first, and the closing bracket -/
def writeItems : List Doc → Bytes
  | [] => [closeBracket]
  | t :: ts => comma :: (t.write ++ writeItems ts)

/-- the members after the first, and the closing brace -/
def writeMembers : List (Bytes × Doc) → Bytes
  | [] => [closeBrace]
  | (k, t) :: ms => comma :: (quoted k ++ colon :: (t.write ++ writeMembers ms))

end

end Doc

end Changefeed.Json
