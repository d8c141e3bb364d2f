/-
# TOML documents

A document is a table.  Tables arise in four ways, and how a table arose decides
what may still be added to it:

| origin | written as | keys may be added |
| --- | --- | --- |
| `header` | `[a]` | below its header only |
| `implied` | `a` in `[a.b]` | by one header `[a]` later |
| `dotted` | `a` in `a.b = 1` | by dotted keys |
| inline | `a = { … }` | never |

`[[a]]` adds one more table to the list of tables `a`; a path through `a` goes
through its last table.  `Document.addEntry`, `Document.openTable` and
`Document.appendTable` refuse what breaks these rules or sets a key twice.

Values keep the stretch of the text in which they are written.  That of a table
goes from its header to the end of its last value; tables that are implied or
made by dotted keys are written nowhere.
-/

import CommandBridge.Number.Binary64
import CommandBridge.Text.Report
import CommandBridge.Toml.Quoted

namespace CommandBridge

/-- Something with the stretch in which it is written, if there is one. -/
structure Located (α : Type) where
  span : Option Text.Span
  value : α
deriving Inhabited

namespace Toml

/-- One part of a key. -/
structure Key where
  name : String
  span : Text.Span
deriving Inhabited, Repr

/-- How a table arose. -/
inductive TableOrigin where
  | header
  | implied
  | dotted
deriving DecidableEq, Repr

/-- What paths of keys are read for. -/
inductive PathUse where
  /-- The header of a table. -/
  | header
  /-- A line with a key and a value. -/
  | entry
  /-- A key and a value in an inline table. -/
  | inline
deriving DecidableEq, Repr

/-- What is wrong with something that is well formed by itself. -/
inductive Fault where
  /-- A key is set twice in a table; the table's path, if it is told. -/
  | duplicateKey (key : String) (table : Option (List String))
  /-- A path goes on behind a value of another kind than a table. -/
  | notATable (path : List String) (found : String)
  | outOfRange
  | tooDeep
  | tooLarge
  | tooSmall
deriving DecidableEq, Repr

/-- The wording of the faults. -/
def Fault.message : Fault → String
  | .duplicateKey key none => "duplicate key `" ++ key ++ "`"
  | .duplicateKey key (some []) => "duplicate key `" ++ key ++ "` in document root"
  | .duplicateKey key (some table) =>
    "duplicate key `" ++ key ++ "` in table `" ++ ".".intercalate table ++ "`"
  | .notATable path found =>
    "dotted key `" ++ ".".intercalate path ++ "` attempted to extend non-table type (" ++
      found ++ ")"
  | .outOfRange => "value is out of range"
  | .tooDeep => "recursion limit exceeded"
  | .tooLarge => "number too large to fit in target type"
  | .tooSmall => "number too small to fit in target type"

end Toml

/-- A value of a document. -/
inductive Toml where
  | string (s : String)
  | integer (i : Int)
  | number (x : Binary64)
  | boolean (b : Bool)
  /-- A date, a time or both. -/
  | date
  | array (items : List (Located Toml))
  | inline (entries : List (Toml.Key × Located Toml))
  | table (origin : Toml.TableOrigin) (entries : List (Toml.Key × Located Toml))
  | tables (elements : List (Located (List (Toml.Key × Located Toml))))
deriving Inhabited

namespace Toml

/-- The keys of a table with their values. -/
abbrev Entries := List (Key × Located Toml)

/-- The names of the kinds of values. -/
def kindName : Toml → String
  | .string _ => "string"
  | .integer _ => "integer"
  | .number _ => "float"
  | .boolean _ => "boolean"
  | .date => "datetime"
  | .array _ => "array"
  | .inline _ => "inline table"
  | .table _ _ => "table"
  | .tables _ => "array of tables"

namespace Entries

/-- The value of a key. -/
def value? (es : Entries) (name : String) : Option (Located Toml) :=
  (es.find? (·.1.name == name)).map (·.2)

/-- Replaces the value of a key. -/
def replace (es : Entries) (name : String) (v : Located Toml) : Entries :=
  es.map fun p => if p.1.name == name then (p.1, v) else p

/-- Takes a key out. -/
def erase (es : Entries) (name : String) : Entries :=
  es.filter (·.1.name != name)

/-- Changes the table at the end of a path; `walked` are the names of the keys
that lead to the table `t`.  Tables that are missing on the way are made; keys of
lines do not go through tables that a header made, nor keys of inline tables
through other inline tables. -/
def update (use : PathUse)
    (change : TableOrigin → Located Entries → Except Fault (Located Entries))
    (walked : List String) :
    List Key → TableOrigin → Located Entries → Except Fault (Located Entries)
  | [], origin, t => change origin t
  | key :: path, _, t =>
    let names := walked ++ [key.name]
    match value? t.value key.name with
    | none => do
      let origin : TableOrigin := if use == .header then .implied else .dotted
      let inner ← update use change names path origin ⟨none, []⟩
      return ⟨t.span, t.value ++ [(key, ⟨inner.span, .table origin inner.value⟩)]⟩
    | some ⟨span, .table origin entries⟩ =>
      if use != .header && origin == .header then .error (.duplicateKey key.name none)
      else do
        let inner ← update use change names path origin ⟨span, entries⟩
        return ⟨t.span, replace t.value key.name ⟨inner.span, .table origin inner.value⟩⟩
    | some ⟨span, .tables elements⟩ =>
      match elements.getLast? with
      | some last => do
        let last ← update use change names path .header last
        return ⟨t.span, replace t.value key.name ⟨span, .tables (elements.dropLast ++ [last])⟩⟩
      | none => .ok t
    | some ⟨_, .inline _⟩ =>
      if use == .inline then .error (.duplicateKey key.name none)
      else .error (.notATable names "inline table")
    | some ⟨_, v⟩ => .error (.notATable names v.kindName)

/-- Adds what a key of one or more parts stands for.  A key behind dots only goes
into a table that dotted keys made; `table` is the path that is told when the key
is there already. -/
def insert (use : PathUse) (table : Option (List String)) (path : List Key) (key : Key)
    (v : Located Toml) : Located Entries → Except Fault (Located Entries) :=
  update use (fun origin t =>
    if !path.isEmpty && origin != .dotted then .error (.duplicateKey key.name none)
    else if (value? t.value key.name).isSome then .error (.duplicateKey key.name table)
    else .ok ⟨t.span, t.value ++ [(key, v)]⟩) [] path .header

end Entries

/-- A document up to some line. -/
structure Document where
  root : Located Entries := ⟨none, []⟩
  /-- The path in the last header. -/
  header : List Key := []
deriving Inhabited

namespace Document

/-- A stretch from the start of one to the end of another. -/
def spanTo (first last : Option Text.Span) : Option Text.Span :=
  match first, last with
  | some a, some b => some ⟨a.start, b.stop⟩
  | _, _ => first

/-- Adds a line with a key and a value below the last header. -/
def addEntry (d : Document) (path : List Key) (key : Key) (v : Located Toml) :
    Except Fault Document := do
  let root ← Entries.update .header (fun _ t => do
    let t ← Entries.insert .entry (some (d.header.map (·.name))) path key v t
    return ⟨spanTo t.span v.span, t.value⟩) [] d.header .header d.root
  return { d with root := root }

/-- Makes the table of a header, or takes over one that other headers implied, which
moves to the end. -/
def openTable (d : Document) (path : List Key) (key : Key) (span : Text.Span) :
    Except Fault Document := do
  let root ← Entries.update .header (fun _ t =>
    match Entries.value? t.value key.name with
    | none => .ok ⟨t.span, t.value ++ [(key, ⟨some span, .table .header []⟩)]⟩
    | some ⟨_, .table .implied inner⟩ =>
      .ok ⟨t.span, Entries.erase t.value key.name ++ [(key, ⟨some span, .table .header inner⟩)]⟩
    | some _ => .error (.duplicateKey (writtenKey key.name) (some (path.map (·.name)))))
    [] path .header d.root
  return { root := root, header := path ++ [key] }

/-- Adds a table to a list of tables. -/
def appendTable (d : Document) (path : List Key) (key : Key) (span : Text.Span) :
    Except Fault Document := do
  let element : Located Entries := ⟨some span, []⟩
  let root ← Entries.update .header (fun _ t =>
    match Entries.value? t.value key.name with
    | none => .ok ⟨t.span, t.value ++ [(key, ⟨none, .tables [element]⟩)]⟩
    | some ⟨_, .tables elements⟩ =>
      .ok ⟨t.span, Entries.replace t.value key.name ⟨none, .tables (elements ++ [element])⟩⟩
    | some _ => .error (.duplicateKey (writtenKey key.name) (some (path.map (·.name)))))
    [] path .header d.root
  return { root := root, header := path ++ [key] }

end Document

/-- The stretch of a value; that of a list of tables goes from the first to the
last. -/
def place (v : Located Toml) : Option Text.Span :=
  match v.value with
  | .tables elements =>
    Document.spanTo (elements.head?.bind (·.span)) (elements.getLast?.bind (·.span))
  | _ => v.span

/-- The value of an inline table. -/
def inlineOf (pairs : List (List Key × Key × Located Toml)) : Except Fault Toml := do
  let t ← pairs.foldlM (fun t p => Entries.insert .inline none p.1 p.2.1 p.2.2 t)
    (⟨none, []⟩ : Located Entries)
  return .inline t.value

end Toml
end CommandBridge
