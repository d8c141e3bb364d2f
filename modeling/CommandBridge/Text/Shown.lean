/-
# Texts as messages show them

A text in a message stands between double quotes.  Backslashes and double quotes
have a backslash in front, four controls have a letter or digit of their own, and
any other character that cannot be told by sight is given by its code point in
hexadecimal.
-/

import CommandBridge.Text.Case
import CommandBridge.Text.UnseenTable

namespace CommandBridge
namespace Text

/-- Whether a character cannot be told by sight. -/
def isUnseen (c : Char) : Bool :=
  c.toNat < 0x20 || c.toNat == 0x7F || (0x7F < c.toNat && inRanges unseenRanges c)

/-- A character as messages show it. -/
def shownChar (c : Char) : List Char :=
  if c == '\x00' then ['\\', '0']
  else if c == '\t' then ['\\', 't']
  else if c == '\n' then ['\\', 'n']
  else if c == '\r' then ['\\', 'r']
  else if c == '\\' || c == '"' then ['\\', c]
  else if isUnseen c then ['\\', 'u', '\x7b'] ++ Nat.toDigits 16 c.toNat ++ ['\x7d']
  else [c]

/-- A text as messages show it. -/
def shown (s : String) : String :=
  String.ofList ('"' :: s.toList.flatMap shownChar ++ ['"'])

end Text
end CommandBridge
