/-
# Host values

The host runtime is dynamically typed.  Tables, functions and objects are
compared by identity, so a value holds only their number; what a number stands
for is kept in the heap.  Numbers come as 64-bit integers and as binary64.

A key of a table is a value that is neither nil nor a NaN, with every number
that equals a 64-bit integer turned into that integer (`Key.ofValue`).
-/

import CommandBridge.Bytes.Utf8
import CommandBridge.Number.Decimal
import CommandBridge.Number.Integer

namespace CommandBridge

/-- A value of the host runtime. -/
inductive HostValue where
  | nil
  | bool (b : Bool)
  | int (i : Int64)
  | number (x : Binary64)
  | string (bytes : Bytes)
  | table (id : Nat)
  | function (id : Nat)
  | object (id : Nat)
deriving DecidableEq, Inhabited, Repr

namespace HostValue

/-- A string value of some text. -/
def ofText (s : String) : HostValue :=
  .string (Utf8.encode s)

/-- The type name that error messages use. -/
def typeName : HostValue → String
  | .nil => "nil"
  | .bool _ => "boolean"
  | .int _ => "number"
  | .number _ => "number"
  | .string _ => "string"
  | .table _ => "table"
  | .function _ => "function"
  | .object _ => "userdata"

def isNil : HostValue → Bool
  | .nil => true
  | _ => false

def isNumber : HostValue → Bool
  | .int _ => true
  | .number _ => true
  | _ => false

/-- Everything but nil and false counts as true. -/
def truthy : HostValue → Bool
  | .nil => false
  | .bool b => b
  | _ => true

/-- The 64-bit integer that the value equals. -/
def toInteger? : HostValue → Option Int64
  | .int i => some i
  | .number x => x.toInt?.bind Integer.word?
  | _ => none

/-- The value as a binary64 number. -/
def toNumber? : HostValue → Option Binary64
  | .int i => some (Binary64.ofInt i.toInt)
  | .number x => some x
  | _ => none

/-- How the host names the numbers that are not finite. -/
def numberNames : NumberNames :=
  ⟨"nan", "-nan", "inf", "-inf"⟩

/-- The text of a string that is well-formed UTF-8. -/
def text? : HostValue → Option String
  | .string bytes => Utf8.text? bytes
  | _ => none

/-- Strings as they are and numbers by their text; nothing else is coerced. -/
def coerceBytes? : HostValue → Option Bytes
  | .string bytes => some bytes
  | .int i => some (Utf8.encode (toString i.toInt))
  | .number x => some (Utf8.encode (x.text numberNames))
  | _ => none

/-- The text shown for a value; tables, functions and objects have none, since
theirs would name an address. -/
def display? : HostValue → Option String
  | .nil => some "nil"
  | .bool b => some (if b then "true" else "false")
  | .int i => some (toString i.toInt)
  | .number x => some (x.text numberNames)
  | .string bytes => some (Utf8.textReplacing bytes)
  | _ => none

/-- Equality of values: numbers by value across both kinds, strings by content
and the rest by identity. -/
def same : HostValue → HostValue → Bool
  | .number x, .number y => x.sameValue y
  | .int i, .number x => (Binary64.ofInt i.toInt).sameValue x
  | .number x, .int i => (Binary64.ofInt i.toInt).sameValue x
  | a, b => a == b

end HostValue

/-- A table key. -/
inductive Key where
  | bool (b : Bool)
  | int (i : Int64)
  | number (x : Binary64)
  | string (bytes : Bytes)
  | table (id : Nat)
  | function (id : Nat)
  | object (id : Nat)
deriving DecidableEq, Inhabited, Repr

/-- Why a value is no key. -/
inductive KeyError where
  | nil
  | notANumber
deriving DecidableEq, Repr

/-- The wording of the errors. -/
def KeyError.message : KeyError → String
  | .nil => "table index is nil"
  | .notANumber => "table index is NaN"

namespace Key

/-- The key that a value stands for. -/
def ofValue (v : HostValue) : Except KeyError Key :=
  match v with
  | .nil => .error .nil
  | .bool b => .ok (.bool b)
  | .int i => .ok (.int i)
  | .number x =>
    if x.isNaN then .error .notANumber
    else
      match v.toInteger? with
      | some i => .ok (.int i)
      | none => .ok (.number x)
  | .string bytes => .ok (.string bytes)
  | .table id => .ok (.table id)
  | .function id => .ok (.function id)
  | .object id => .ok (.object id)

/-- The key as a value. -/
def toValue : Key → HostValue
  | .bool b => .bool b
  | .int i => .int i
  | .number x => .number x
  | .string bytes => .string bytes
  | .table id => .table id
  | .function id => .function id
  | .object id => .object id

/-- Whether a key is a number. -/
def isNumeric : Key → Bool
  | .int _ => true
  | .number _ => true
  | _ => false

/-- The key of a name. -/
def ofText (s : String) : Key :=
  .string (Utf8.encode s)

end Key
end CommandBridge
