/-
# Settings as text

Settings are kept as a TOML document with the tables `interp` and `args`.  What
is left out has its default and unknown keys are ignored.  In place of a table
an array may give the settings in their fixed order, and a date or time stands
for a table without keys.

Values are taken in the order of the document, and the first that is not of the
kind it has to be is reported.  The report is on the place of the value, or on its
key if the value is written nowhere.

`toText` writes every text between quotes, so that any settings can be written
as long as the nesting bound fits into a signed word.
-/

import CommandBridge.Settings.Basic
import CommandBridge.Text.Shown
import CommandBridge.Toml.Text

namespace CommandBridge
namespace Settings

/-- A value that is not of the kind it has to be. -/
structure Mismatch where
  span : Option Text.Span
  message : String

/-- The names of numbers that are not finite, in messages. -/
def numberNames : NumberNames :=
  { nan := "NaN", negativeNaN := "NaN", infinity := "inf", negativeInfinity := "-inf" }

/-- What a value is, in messages. -/
def described : Toml → String
  | .string s => "string " ++ Text.shown s
  | .integer i => "integer `" ++ toString i ++ "`"
  | .number x => "floating point `" ++ x.text numberNames ++ "`"
  | .boolean b => "boolean `" ++ toString b ++ "`"
  | .array _ => "sequence"
  | .tables _ => "sequence"
  | .date => "map"
  | .inline _ => "map"
  | .table _ _ => "map"

/-- A value of another kind than the one wanted. -/
def otherKind {α : Type} (v : Located Toml) (wanted : String) : Except Mismatch α :=
  .error ⟨(Toml.place v), "invalid type: " ++ described v.value ++ ", expected " ++ wanted⟩

/-- A text. -/
def textOf (v : Located Toml) : Except Mismatch String :=
  match v.value with
  | .string s => .ok s
  | _ => otherKind v "a string"

/-- A natural number. -/
def countOf (v : Located Toml) : Except Mismatch Nat :=
  match v.value with
  | .integer i =>
    if 0 ≤ i then .ok i.toNat
    else .error ⟨(Toml.place v), "invalid value: " ++ described v.value ++ ", expected usize"⟩
  | _ => otherKind v "usize"

/-- A setting: its name, and how a value changes the settings. -/
structure Field where
  name : String
  set : Located Toml → Settings → Except Mismatch Settings

/-- Settings that stand together. -/
structure Group where
  name : String
  /-- What is wanted where the group is expected. -/
  wanted : String
  /-- In their fixed order. -/
  fields : List Field

def interpGroup : Group :=
  { name := "interp"
    wanted := "struct InterpConfig"
    fields :=
      [⟨"adhoc_command", fun v s => do return { s with adhocCommand := ← textOf v }⟩,
       ⟨"init_script", fun v s => do return { s with initScript := some (← textOf v) }⟩,
       ⟨"system_encoding", fun v s => do return { s with systemEncoding := ← textOf v }⟩,
       ⟨"max_nesting", fun v s => do return { s with maxNesting := ← countOf v }⟩] }

def argsGroup : Group :=
  { name := "args"
    wanted := "struct ArgsConfig"
    fields := [⟨"option_prefix", fun v s => do return { s with optionPrefix := ← textOf v }⟩] }

/-- Reports on a key if the value is written nowhere. -/
def orAtKey {α : Type} (key : Toml.Key) (r : Except Mismatch α) : Except Mismatch α :=
  r.mapError fun e => { e with span := e.span.or (some key.span) }

/-- Settings with those that a table names. -/
def Group.setNamed (g : Group) (es : Toml.Entries) (s : Settings) : Except Mismatch Settings :=
  es.foldlM (fun s p =>
    match g.fields.find? (·.name == p.1.name) with
    | some f => orAtKey p.1 (f.set p.2 s)
    | none => .ok s) s

/-- Settings with those that values give in their fixed order. -/
def Group.setOrdered (g : Group) (vs : List (Located Toml)) (s : Settings) :
    Except Mismatch Settings :=
  (g.fields.zip vs).foldlM (fun s p => p.1.set p.2 s) s

/-- Settings with those of a group that a value gives. -/
def Group.set (g : Group) (v : Located Toml) (s : Settings) : Except Mismatch Settings :=
  match v.value with
  | .table _ entries => g.setNamed entries s
  | .inline entries => g.setNamed entries s
  | .date => .ok s
  | .array items => g.setOrdered items s
  | .tables elements => g.setOrdered (elements.map fun t => ⟨t.span, .table .header t.value⟩) s
  | _ => otherKind v g.wanted

/-- The settings that a document holds. -/
def ofDocument (es : Toml.Entries) : Except Mismatch Settings :=
  es.foldlM (fun s p =>
    match [interpGroup, argsGroup].find? (·.name == p.1.name) with
    | some g => orAtKey p.1 (g.set p.2 s)
    | none => .ok s) {}

/-- Reads settings and checks them. -/
def ofText (text : String) : Except SettingsError Settings :=
  match Toml.ofText text with
  | .error report => .error (.malformed report)
  | .ok es =>
    match ofDocument es with
    | .ok s => s.validate
    | .error e =>
      .error (.malformed (Text.report Toml.reportTitle text.toList (e.span.getD ⟨0, 0⟩) e.message))

/-- A line with a key and a value. -/
def entryLine (key value : String) : String :=
  key ++ " = " ++ value ++ "\n"

/-- Writes settings. -/
def toText (s : Settings) : String :=
  "[interp]\n" ++ entryLine "adhoc_command" (Toml.quoted s.adhocCommand) ++
    (s.initScript.map fun script => entryLine "init_script" (Toml.quoted script)).getD "" ++
    entryLine "system_encoding" (Toml.quoted s.systemEncoding) ++
    entryLine "max_nesting" (toString s.maxNesting) ++
    "\n[args]\n" ++ entryLine "option_prefix" (Toml.quoted s.optionPrefix)

/-- The text in which settings are saved; a nesting bound outside the signed words
cannot be. -/
def saved? (s : Settings) : Option String :=
  if s.maxNesting < 0x8000000000000000 then some s.toText else none

/-- Reads saved settings; there is nothing to read if they could not be saved. -/
def load (saved : Option String) : Except SettingsError Settings :=
  match saved with
  | some text => ofText text
  | none => .error (.unreadable "No such file or directory (os error 2)")

end Settings
end CommandBridge
