/-
# Variables accessed by the host

Every access leaves a message if it fails, whatever flags it was given.
-/

import CommandBridge.Bridge.Basic

namespace CommandBridge
namespace Bridge

/-- Flags that ask for a message. -/
def reporting (flags : Flags) : Flags :=
  flags.union .leaveErrorMessage

/-- What an access to a variable gives. -/
def finishAccess (i : Nat) (value : Option Value) : Program (Except BridgeError HostValue) := do
  match value with
  | some v => return .ok (← handOver v)
  | none => resultError i

/-- Reads a variable or element. -/
def getVar (handle : Nat) (name : String) (key : Option String) (flags : Flags) :
    Program (Except BridgeError HostValue) :=
  withLive handle fun i => do
    finishAccess i (← Interp.read i name key (reporting flags))

/-- Writes a variable or element and gives its new value, which is not the written
one if it was appended. -/
def setVar (handle : Nat) (name : String) (key : Option String) (value : HostValue)
    (flags : Flags) : Program (Except BridgeError HostValue) :=
  withLive handle fun i =>
    withConverted (fun w => Marshal.toTarget w.heap value) fun v => do
      finishAccess i (← Interp.write i name key v (reporting flags))

/-- Unsets a variable or element. -/
def unsetVar (handle : Nat) (name : String) (key : Option String) (flags : Flags) :
    Program (Except BridgeError Unit) :=
  withLive handle fun i => do
    match ← Interp.unset i name key (reporting flags) with
    | .error => resultError i
    | _ => return .ok ()

end Bridge
end CommandBridge
