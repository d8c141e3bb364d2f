/-
# The interpreter calling the host

There are two kinds of commands that call host functions.  The ad-hoc command
calls the host global that its first argument names; a registered command calls
the function that its handle keeps under the name the command was registered
with.  Both pass their remaining arguments on.

The first value that the function returns becomes the result.  If the function
fails, or the value cannot be converted, the command fails with the message.
While the host is being called it stays alive.
-/

import CommandBridge.Bridge.Basic

namespace CommandBridge
namespace Bridge

variable {α : Type}

/-- Runs a program on the host, if it is still alive. -/
def withHost (p : Program α) : Program (Option α) := do
  if (← Program.world).host.alive then
    Program.modify fun w => { w with host := { w.host with borrowed := w.host.borrowed + 1 } }
    let a ← p
    Program.modify fun w => { w with host := { w.host with borrowed := w.host.borrowed - 1 } }
    return some a
  else return none

/-- Makes the outcome of a host function the result of a command. -/
def returnTo (i : Nat) (outcome : Except HostError (List HostValue)) : Program Status := do
  Interp.resetResult i
  match outcome with
  | .error e => Interp.fail i e.message
  | .ok values =>
    match Marshal.toTarget (← Program.world).heap (values.headD .nil) with
    | .ok v => do
      Interp.setResult i v
      return .ok
    | .error e => Interp.fail i e.message

/-- Calls a host function for a command. -/
def callFor (i : Nat) (function : World → HostValue) (args : List Value) : Program Status := do
  let status ← withHost do
    let f := function (← Program.world)
    let args ← handOverEach args
    returnTo i (← Program.callHost f args)
  match status with
  | some status => return status
  | none => Interp.fail i "host runtime is no longer available"

/-- A global of the host. -/
def global (w : World) (name : String) : HostValue :=
  (w.heap.table w.host.globals).field name

/-- The function that a handle keeps under a key, nil if there is none. -/
def functionOf (w : World) (handle : Nat) (key : String) : HostValue :=
  match (w.handle handle).functions[key]? with
  | some id => .function id
  | none => .nil

/-- The ad-hoc command. -/
def callGlobal (i : Nat) (words : List Value) : Program Status :=
  match words with
  | _ :: name :: args => callFor i (global · name.str) args
  | _ => return .ok

/-- A registered command. -/
def callRegistered (i handle : Nat) (key : String) (words : List Value) : Program Status :=
  callFor i (functionOf · handle key) words.tail

/-- Keeps a function under a key. -/
def keepFunction (handle : Nat) (key : String) (function : Nat) : Program Unit :=
  Program.modify fun w => w.withHandle handle fun h =>
    { h with functions := h.functions.insert key function }

/-- Drops the function under a key. -/
def forgetFunction (handle : Nat) (key : String) : Program Unit :=
  Program.modify fun w => w.withHandle handle fun h =>
    { h with functions := h.functions.erase key }

/-- The command that calls a registered function; deleting it drops the
function. -/
def registeredCommand (handle : Nat) (name : String) : Command :=
  { procedure := .callRegistered handle name, onDelete := some (.forget handle name) }

/-- The error of a command that cannot be created. -/
def noCommandMessage (name : String) : String :=
  "can't create command \"" ++ name ++ "\""

/-- Makes a function callable as a command.  A command that had the name goes
first, and the function that was kept for it with it. -/
def register (handle : Nat) (name : String) (function : Nat) :
    Program (Except BridgeError Unit) :=
  withLive handle fun i => do
    if ← Interp.createCommand i name (registeredCommand handle name) then
      keepFunction handle name function
      return .ok ()
    else return .error (.eval (noCommandMessage name))

/-- Deletes a command; an unknown name is ignored. -/
def unregister (handle : Nat) (name : String) : Program (Except BridgeError Unit) :=
  withLive handle fun i => do
    let _ ← Interp.deleteCommand i name
    return .ok ()

end Bridge
end CommandBridge
