/-
# Reading documents

The grammar is that of TOML 1.0, with two bounds on depth: a key has fewer than
eighty parts, and arrays and inline tables nest less than eighty deep.  A byte
order mark may stand in front.

What comes next decides what is read, and once that is decided reading is
committed to it.  Lines take effect in their order, so that a key set twice is
reported before anything in a later line.
-/

import CommandBridge.Toml.Scalar

namespace CommandBridge
namespace Toml
namespace Reader

/-! ### Keys -/

/-- One part of a key, in one of its three notations. -/
def keyName : Reader (List Char) := do
  match ← next? with
  | some '"' => basic
  | some '\'' => literal
  | _ => run1 isKeyChar

/-- One part of a key with space around it. -/
def keyPart : Reader Key := do
  gap
  let (name, span) ← located keyName
  gap
  return ⟨String.ofList name, span⟩

/-- The bound on the parts of a key and on nesting. -/
def depthLimit : Nat := 80

/-- A key of one or more parts: those in front and the last. -/
def key : Reader (List Key × Key) :=
  refine (labelled "key" (separated keyPart '.')) fun parts =>
    if parts.length < depthLimit then .ok (parts.dropLast, parts.getLastD default)
    else .error .tooDeep

/-- The sign between a key and its value. -/
def equals : Reader Unit :=
  expecting ["`.`", "`=`"] (char '=')

/-! ### Values -/

/-- What is complained about where no value starts. -/
def valueComplaint {α : Type} (p : Reader α) : Reader α :=
  expecting ["`\"`", "`'`"] (labelled "string" p)

/-- A value given by a word. -/
def word (name : String) (v : Toml) : Reader Toml := do
  chars name.toList
  return v

/-- A value that starts like a number. -/
def numeric : Reader Toml :=
  either date (either number integer)

/-- A value that starts with a given character and is no array or inline table. -/
def scalar : Option Char → Reader Toml
  | some '"' => text
  | some '\'' => text
  | some '_' => expecting ["leading digit"] integer
  | some '.' => expecting ["leading digit"] number
  | some 't' => valueComplaint (committed (word "true" (.boolean true)))
  | some 'f' => valueComplaint (committed (word "false" (.boolean false)))
  | some 'i' => valueComplaint (word "inf" (.number (Binary64.infinity false)))
  | some 'n' => valueComplaint (word "nan" (.number Binary64.nan))
  | some c => if c == '+' || c == '-' || c.isDigit then numeric else valueComplaint fail
  | none => fail

/-- An array of values. -/
def array (value : Reader (Located Toml)) : Reader Toml := do
  let item : Reader (Located Toml) := do
    wideGap
    let v ← value
    wideGap
    return v
  let items : Reader (List (Located Toml)) := do
    let items ← orElse [] do
      let items ← separated item ','
      orElse () (char ',')
      return items
    wideGap
    return items
  char '['
  let items ← committed items
  expecting ["`]`"] (labelled "array" (committed (char ']')))
  return .array items

/-- A table within a line. -/
def inlineTable (value : Reader (Located Toml)) : Reader Toml := do
  let pair : Reader (List Key × Key × Located Toml) := do
    let (path, k) ← key
    committed do
      equals
      gap
      let v ← value
      gap
      return (path, k, v)
  let pairs : Reader (List (List Key × Key × Located Toml)) := do
    let pairs ← orElse [] (separated pair ',')
    gap
    return pairs
  char '\x7b'
  let v ← committed (refine pairs inlineOf)
  expecting ["`\x7d`"] (labelled "inline table" (committed (char '\x7d')))
  return v

/-- A value in which arrays and inline tables nest at most so deep. -/
def value : Nat → Reader (Located Toml)
  | 0 => do
    let (v, span) ← located do
      match ← next? with
      | some '[' => committed (faulty .tooDeep)
      | some '\x7b' => committed (faulty .tooDeep)
      | c => scalar c
    return ⟨some span, v⟩
  | depth + 1 => do
    let (v, span) ← located do
      match ← next? with
      | some '[' => array (value depth)
      | some '\x7b' => inlineTable (value depth)
      | c => scalar c
    return ⟨some span, v⟩

/-! ### Lines -/

/-- A line with a key and a value. -/
def entry (d : Document) : Reader Document :=
  let parts : Reader (List Key × Key × Located Toml) := do
    let (path, k) ← key
    committed do
      equals
      gap
      let v ← value (depthLimit - 1)
      lineRest
      return (path, k, v)
  refine parts fun (path, k, v) => d.addEntry path k v

/-- A header between brackets, with the stretch it is written in. -/
def bracketed (left right : List Char) : Reader ((List Key × Key) × Text.Span) := do
  let shown := "`" ++ String.ofList right ++ "`"
  let header ← located do
    chars left
    let k ← committed key
    expecting ["`.`", shown] (committed (chars right))
    return k
  committed lineRest
  return header

/-- A line with a header. -/
def header (d : Document) : Reader Document :=
  labelled "table header" do
    atLeast 2
    if (← ahead ['[', '[']) then
      refine (bracketed ['[', '['] [']', ']']) fun ((path, k), span) => d.appendTable path k span
    else
      refine (bracketed ['['] [']']) fun ((path, k), span) => d.openTable path k span

/-- The lines that are left, with all they add to a document. -/
def lines : Nat → Document → Reader Document
  | 0, d => return d
  | n + 1, d => do
    let step (p : Reader Document) : Reader Document := do
      let d ← p
      gap
      lines n d
    match ← next? with
    | none => return d
    | some '#' => step (committed do
        comment
        lineEnd
        return d)
    | some '[' => step (committed (header d))
    | some '\n' => step do
        newline
        return d
    | some '\r' => step do
        attempt newline
        return d
    | some _ => step (committed (entry d))

/-- A document. -/
def document : Reader Document := do
  orElse () (char '\uFEFF')
  gap
  lines (← left) {}

end Reader

/-- The title of reports on a text that is no document. -/
def reportTitle : String := "TOML parse error"

/-- The top table of a document, or a report on where it is not one. -/
def ofText (s : String) : Except String Entries :=
  let cs := s.toList
  match Reader.document ⟨cs, 0⟩ with
  | .ok (d, _) => .ok d.root.value
  | .error e =>
    .error (Text.report reportTitle cs ⟨e.place, e.place + 1⟩ e.complaint.message)

end Toml
end CommandBridge
