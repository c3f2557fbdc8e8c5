/-
Text in quotes for a reader of messages: what would not show, or would show as part of the character
before it, stands as an escape.
-/
import Changefeed.Text.Blank
import Changefeed.Text.Combining
import Changefeed.Text.Ignorable
import Changefeed.Text.Unprintable
namespace Changefeed.Text

/-- the character shows as itself -/
def shows (c : Char) : Bool :=
  !inRanges extendingRanges c.toNat && !inRanges unprintableRanges c.toNat &&
    !inRanges ignorableRanges c.toNat

/-- a character as it stands in quotes -/
def escape (c : Char) : List Char :=
  match c with
  | '\x00' => ['\\', '0']
  | '\t' => ['\\', 't']
  | '\r' => ['\\', 'r']
  | '\n' => ['\\', 'n']
  | '"' => ['\\', '"']
  | '\\' => ['\\', '\\']
  | c =>
    if shows c then [c]
    else ['\\', 'u', '\x7b'] ++ Nat.toDigits 16 c.toNat ++ ['\x7d']

/-- a text in quotes -/
def quote (s : String) : String :=
  String.ofList ('"' :: s.toList.flatMap escape ++ ['"'])

end Changefeed.Text
