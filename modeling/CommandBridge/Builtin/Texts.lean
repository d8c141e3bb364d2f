/-
# Commands on texts

`string`, `puts` and `encoding`.
-/

import CommandBridge.Builtin.Basic
import CommandBridge.Text.Case

namespace CommandBridge
namespace Builtin

/-- The value of a subcommand of `string`, if there is such a one with so many
arguments. -/
def stringResult? (option : String) (args : List Value) : Option Value :=
  match option, args with
  | "length", [s] => some (.int (Int64.ofNat s.str.length))
  | "bytelength", [s] => some (.int (Int64.ofNat (Utf8.encode s.str).length))
  | "toupper", [s] => some (.text (Text.upper s.str))
  | "tolower", [s] => some (.text (Text.lower s.str))
  | "trim", [s] => some (.text (Text.trim s.str))
  | "equal", [s, t] => some (.boolean (s.str == t.str))
  | "match", [pattern, s] => some (.boolean (Glob.fits pattern.str s.str))
  | _, _ => none

def runString (i : Nat) (words : List Value) : Program Status :=
  match words with
  | _ :: option :: arg :: args =>
    match stringResult? option.str (arg :: args) with
    | some v => answer i v
    | none => Interp.fail i ("bad option \"" ++ option.str ++
        "\": must be bytelength, equal, length, match, tolower, toupper, or trim")
  | _ => Interp.wrongNumArgs i words 1 "option arg ?arg ...?"

/-- Writes to an output channel, if the channel exists. -/
def writeChannel (i : Nat) (channel text : String) : Program Status :=
  match channel with
  | "stdout" => do
    Program.modify fun w => { w with journal := { w.journal with out := w.journal.out ++ text } }
    return .ok
  | "stderr" => do
    Program.modify fun w => { w with journal := { w.journal with err := w.journal.err ++ text } }
    return .ok
  | other => Interp.fail i ("can not find channel named \"" ++ other ++ "\"")

/-- The option of `puts`: the end of the line, and the arguments behind it. -/
def putsOption : List Value → String × List Value
  | [] => ("\n", [])
  | w :: r => if w.str == "-nonewline" then ("", r) else ("\n", w :: r)

def runPuts (i : Nat) (words : List Value) : Program Status :=
  let (lineEnd, args) := putsOption words.tail
  match args with
  | [text] => writeChannel i "stdout" (text.str ++ lineEnd)
  | [channel, text] => writeChannel i channel.str (text.str ++ lineEnd)
  | _ => Interp.wrongNumArgs i words 1 "?-nonewline? ?channelId? string"

/-- Room for the output of a conversion: four bytes for each one and four
more. -/
def conversionRoom (src : Bytes) : Nat := src.length * 4 + 4

/-- The value of a conversion. -/
def converted (e : Encoding) (data : Value) (toText : Bool) : Value :=
  if toText then
    let src := data.getBytes
    .text (Utf8.textReplacing (e.codec.toText (conversionRoom src) src))
  else
    let src := Utf8.encode data.str
    .bytes (e.codec.ofText (conversionRoom src) src)

/-- A conversion with the named encoding or the system encoding. -/
def runConversion (i : Nat) (words args : List Value) (toText : Bool) : Program Status :=
  let convert (name : Option String) (data : Value) : Program Status := do
    match ← Interp.findEncoding i name with
    | none => return .error
    | some e => answer i (converted e data toText)
  match args with
  | [data] => convert none data
  | [name, data] => convert (some name.str) data
  | _ => Interp.wrongNumArgs i words 2 "?encoding? data"

def runEncoding (i : Nat) (words : List Value) : Program Status :=
  match words with
  | _ :: option :: args =>
    match option.str, args with
    | "names", [] => do
      Interp.listEncodings i
      return .ok
    | "names", _ => Interp.wrongNumArgs i words 2 ""
    | "system", [] => do
      answer i (.text (← Program.interpreter i).systemEncoding.name)
    | "system", [name] => Interp.setSystemEncoding i name.str
    | "system", _ => Interp.wrongNumArgs i words 2 "?encoding?"
    | "convertto", args => runConversion i words args false
    | "convertfrom", args => runConversion i words args true
    | other, _ => Interp.fail i ("bad option \"" ++ other ++
        "\": must be convertfrom, convertto, names, or system")
  | _ => Interp.wrongNumArgs i words 1 "option ?arg ...?"

end Builtin
end CommandBridge
