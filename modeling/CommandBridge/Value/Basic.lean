/-
# Interpreter values

Every value has a text, and all but texts and the empty value carry a type as
well.  The text of a list is the list text of its elements, that of a byte
string has one character per byte, and that of a truth value is a digit.  A
foreign value belongs to an extension and is known by its text only.
-/

import CommandBridge.Bytes.Utf8
import CommandBridge.Number.Decimal
import CommandBridge.Word.Quote

namespace CommandBridge

/-- A value of the interpreter. -/
inductive Value where
  | empty
  | int (i : Int64)
  | double (x : Binary64)
  | boolean (b : Bool)
  | bytes (bs : Bytes)
  | text (s : String)
  | list (elements : List Value)
  | foreign (typeName text : String)
deriving Inhabited, Repr

namespace Value

/-- How the interpreter names the numbers that are not finite. -/
def numberNames : NumberNames :=
  ⟨"NaN", "NaN", "Inf", "-Inf"⟩

/-- One character per byte. -/
def latin1 (bs : Bytes) : String :=
  String.ofList (bs.map fun b => Char.ofNat b.toNat)

mutual

/-- The text of a value. -/
def str : Value → String
  | .empty => ""
  | .int i => toString i.toInt
  | .double x => x.text numberNames
  | .boolean b => if b then "1" else "0"
  | .bytes bs => latin1 bs
  | .text s => s
  | .list elements => Word.listText (strs elements)
  | .foreign _ s => s

/-- The texts of values. -/
def strs : List Value → List String
  | [] => []
  | v :: r => str v :: strs r

end

theorem strs_eq_map (vs : List Value) : strs vs = vs.map str := by
  induction vs with
  | nil => rfl
  | cons v r ih => rw [strs, ih, List.map_cons]

/-- The name of the type a value carries. -/
def typeName? : Value → Option String
  | .empty => none
  | .text _ => none
  | .int _ => some "int"
  | .double _ => some "double"
  | .boolean _ => some "boolean"
  | .bytes _ => some "bytearray"
  | .list _ => some "list"
  | .foreign name _ => some name

/-- The types that the interpreter itself knows. -/
def builtinTypes : List String :=
  ["boolean", "bytearray", "double", "int", "list", "string"]

/-- Finds a type of the interpreter by its name. -/
def findType? (name : String) : Option String :=
  builtinTypes.find? (· == name)

end Value
end CommandBridge
