/-
# Command words from host values

A host value becomes one word of a command, except that a bundle becomes all
the values that it holds.  A table becomes its array region followed by its
options: for every key of the map region that is no number, in order, the key
behind a mark and its value.  Keys that are neither numbers nor strings are
refused.
-/

import CommandBridge.Marshal.Convert
import CommandBridge.Run.World

namespace CommandBridge
namespace Bridge

/-- The words that a host value becomes. -/
def wordsOf (w : World) (v : HostValue) : Except ConversionError (List Value) :=
  match w.heap.object? v with
  | some (.bundle id) =>
    match (w.bundle id).values with
    | some values => .ok values
    | none => .error .releasedBundle
  | _ => (Marshal.toTarget w.heap v).map ([·])

/-- The words that host values become one after the other, up to the first
failure. -/
def wordsOfEach (w : World) (vs : List HostValue) : Except ConversionError (List Value) :=
  (vs.mapM (wordsOf w)).map List.flatten

/-- The words of a command without arguments. -/
def commandWords (command : String) : List Value :=
  [.text command]

/-- How many words are kept in place. -/
def inPlace : Nat := 8

/-- Whether there are more words than are kept in place. -/
def spilled (words : List Value) : Bool :=
  inPlace < words.length

/-- The options among entries of a map region: names behind the mark, with their
values. -/
def options (mark : String) :
    List (Key × HostValue) → Except ConversionError (List (HostValue × HostValue))
  | [] => .ok []
  | (key, value) :: rest =>
    if key.isNumeric then options mark rest
    else
      match key with
      | .string name =>
        (options mark rest).map ((.string (Utf8.encode mark ++ name), value) :: ·)
      | key => .error (.optionName key.toValue.typeName)

/-- Names and values in one sequence. -/
def alternating (entries : List (HostValue × HostValue)) : List HostValue :=
  entries.flatMap fun p => [p.1, p.2]

/-- A table as a sequence of arguments. -/
def argList (mark : String) (t : Table) : Except ConversionError (List HostValue) :=
  (options mark t.map).map fun entries => t.array ++ alternating entries

/-- The words that a table becomes. -/
def tableWords (w : World) (mark : String) (t : Table) : Except ConversionError (List Value) := do
  let positional ← wordsOfEach w t.array
  let entries ← options mark t.map
  let named ← wordsOfEach w (alternating entries)
  return positional ++ named

end Bridge
end CommandBridge
