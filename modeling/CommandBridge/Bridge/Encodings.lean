/-
# Encodings used by the host
-/

import CommandBridge.Bridge.Basic

namespace CommandBridge
namespace Bridge

/-- The room for a conversion: four bytes for each one and one more. -/
def scratch (src : Bytes) : Nat :=
  src.length * 4 + 1

/-- Goes on with the named encoding, or with the system encoding. -/
def withEncoding (handle : Nat) (name : Option String) (k : Encoding → Bytes) :
    Program (Except BridgeError Bytes) :=
  withLive handle fun i => do
    match ← Interp.findEncoding i name with
    | some e => return .ok (k e)
    | none => return .error (.encoding (← Interp.result i).str)

/-- Converts UTF-8 to an encoding. -/
def toExternal (handle : Nat) (src : Bytes) (encoding : Option String) :
    Program (Except BridgeError Bytes) :=
  withEncoding handle encoding fun e => e.codec.ofText (scratch src) src

/-- Converts bytes of an encoding to UTF-8. -/
def toHostEncoding (handle : Nat) (src : Bytes) (encoding : Option String) :
    Program (Except BridgeError Bytes) :=
  withEncoding handle encoding fun e => e.codec.toText (scratch src) src

/-- The names of the encodings. -/
def listEncodings (handle : Nat) : Program (Except BridgeError HostValue) :=
  withLive handle fun i => do
    Interp.listEncodings i
    return .ok (← handOver (← Interp.result i))

end Bridge
end CommandBridge
