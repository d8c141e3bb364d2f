/-
# Checked arguments

The arguments of a library function are looked at by their positions, counted
from one.  A missing argument counts as nil.  Each check either gives what is
asked for or the error that names the function, the position and what was found
there instead.
-/

import CommandBridge.Bridge.Error
import CommandBridge.Flags
import CommandBridge.Run.World

namespace CommandBridge

/-- The arguments of a call of a library function. -/
structure Arguments where
  function : LibraryFunction
  values : List HostValue

namespace Arguments

/-- The argument at a position. -/
def get (a : Arguments) (position : Nat) : HostValue :=
  a.values.getD (position - 1) .nil

/-- The error of an argument. -/
def error (a : Arguments) (position : Nat) (message : String) : BridgeError :=
  .argument a.function.name position message

/-- The error of an argument that is not what is expected. -/
def expected {α : Type} (a : Arguments) (position : Nat) (what : String) :
    Except BridgeError α :=
  let found := ((a.values[position - 1]?).map HostValue.typeName).getD "no value"
  .error (a.error position (what ++ " expected, got " ++ found))

/-- A handle. -/
def handle (a : Arguments) (w : World) (position : Nat) : Except BridgeError Nat :=
  match w.heap.object? (a.get position) with
  | some (.handle id) => .ok id
  | _ => a.expected position "ltcl.Interp"

/-- A string, or a number by its text. -/
def bytes (a : Arguments) (position : Nat) : Except BridgeError Bytes :=
  match (a.get position).coerceBytes? with
  | some bs => .ok bs
  | none => a.expected position "string"

/-- A string as text. -/
def text (a : Arguments) (position : Nat) : Except BridgeError String :=
  (a.bytes position).map Utf8.textReplacing

/-- A text, unless it is nil. -/
def optionalText (a : Arguments) (position : Nat) : Except BridgeError (Option String) :=
  if (a.get position).isNil then .ok none else (a.text position).map some

/-- A flag word, cut to 32 bits. -/
def flags (a : Arguments) (position : Nat) : Except BridgeError Flags :=
  match (a.get position).toNumber? with
  | some x => .ok (.ofInt x.toInt32)
  | none => a.expected position "number"

/-- A flag word; nil is the empty one. -/
def optionalFlags (a : Arguments) (position : Nat) : Except BridgeError Flags :=
  if (a.get position).isNil then .ok .none else a.flags position

/-- A table, unless it is nil. -/
def optionalTable (a : Arguments) (position : Nat) : Except BridgeError (Option Nat) :=
  match a.get position with
  | .nil => .ok none
  | .table id => .ok (some id)
  | _ => a.expected position "table"

/-- A function. -/
def functionAt (a : Arguments) (position : Nat) : Except BridgeError Nat :=
  match a.get position with
  | .function id => .ok id
  | _ => a.expected position "function"

/-- The position behind the flags that may stand at position two. -/
def base (a : Arguments) : Nat :=
  if (a.get 2).isNumber then 3 else 2

end Arguments
end CommandBridge
