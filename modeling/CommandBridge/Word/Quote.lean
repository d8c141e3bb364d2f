/-
# Writing list elements

A text becomes one list element in one of three forms: as it is, if no
character of it is special; between braces, if its braces balance and it does
not end in a backslash; otherwise with a backslash before every special
character.  The elements of a list are separated by one space.
-/

import CommandBridge.Text.Blank
import CommandBridge.Word.Brace

namespace CommandBridge
namespace Word

/-- A character that has a meaning in list text or in a script. -/
def isSpecial (c : Char) : Bool :=
  Text.isBlank c || c == '\x7b' || c == '\x7d' || c == '[' || c == ']' || c == '$' ||
    c == '"' || c == '\\' || c == ';'

/-- A special character behind a backslash; the separators other than the space
are written by name. -/
def escaped (c : Char) : List Char :=
  if c == '\n' then ['\\', 'n']
  else if c == '\t' then ['\\', 't']
  else if c == '\r' then ['\\', 'r']
  else if c == '\x0b' then ['\\', 'v']
  else if c == '\x0c' then ['\\', 'f']
  else if isSpecial c then ['\\', c]
  else [c]

/-- Every special character escaped, and a hash sign at the start. -/
def escapedForm (cs : List Char) : List Char :=
  (if cs.head? = some '#' then ['\\'] else []) ++ cs.flatMap escaped

/-- The element that stands for a text. -/
def quote (cs : List Char) : List Char :=
  if cs.isEmpty then ['\x7b', '\x7d']
  else if cs.head? ≠ some '#' ∧ !cs.any isSpecial then cs
  else if balanced cs ∧ cs.getLast? ≠ some '\\' then '\x7b' :: cs ++ ['\x7d']
  else escapedForm cs

/-- The text of a list of elements. -/
def joined (elements : List (List Char)) : List Char :=
  [' '].intercalate (elements.map quote)

/-- The element that stands for a text. -/
def quoteText (s : String) : String :=
  String.ofList (quote s.toList)

/-- The list text of some texts. -/
def listText (elements : List String) : String :=
  String.ofList (joined (elements.map String.toList))

end Word
end CommandBridge
