/-
# Writing TOML texts

Any text can be written between double quotes.  A key is written bare if it can
be, else between quotes of the kind that needs no escapes, else with escapes.
-/

namespace CommandBridge
namespace Toml

/-- Whether a character may stand in a bare key. -/
def isKeyChar (c : Char) : Bool :=
  c.isAlphanum || c == '-' || c == '_'

/-- Whether a character is a control other than the tab. -/
def isControl (c : Char) : Bool :=
  (c.toNat < 0x20 && c != '\t') || c.toNat == 0x7F

/-- A character between double quotes. -/
def escaped (c : Char) : List Char :=
  if c == '"' then ['\\', '"']
  else if c == '\\' then ['\\', '\\']
  else if c == '\n' then ['\\', 'n']
  else if c == '\t' then ['\\', 't']
  else if c == '\r' then ['\\', 'r']
  else if c == '\x08' then ['\\', 'b']
  else if c == '\x0c' then ['\\', 'f']
  else if c.toNat < 0x20 || c.toNat == 0x7F then
    let ds := (Nat.toDigits 16 c.toNat).map Char.toUpper
    '\\' :: 'u' :: (List.replicate (4 - ds.length) '0' ++ ds)
  else [c]

/-- A text between double quotes. -/
def quoted (s : String) : String :=
  "\"" ++ String.ofList (s.toList.flatMap escaped) ++ "\""

/-- A part of a key as it is written. -/
def writtenKey (s : String) : String :=
  let cs := s.toList
  if !cs.isEmpty && cs.all isKeyChar then s
  else if cs.any fun c => isControl c || c == '\\' || c == '"' then
    if cs.any fun c => isControl c || c == '\'' then quoted s else "'" ++ s ++ "'"
  else quoted s

end Toml
end CommandBridge
