/-
# Making and destroying handles

A new handle gets its own interpreter with the system encoding and the ad-hoc
command that its settings name, and runs their startup script.  If any of these
fails there is no handle and the interpreter is deleted.
-/

import CommandBridge.Bridge.Callback
import CommandBridge.Interpreter.Evaluate

namespace CommandBridge
namespace Bridge

/-- A new interpreter. -/
def addInterpreter (maxNesting : Nat) : Program Nat :=
  Program.update fun w =>
    (w.interpreters.next, { w with interpreters := w.interpreters.add (.new maxNesting) })

/-- A new handle. -/
def addHandle (i : Nat) (s : Settings) : Program Nat :=
  Program.update fun w =>
    (w.handles.next, { w with handles := w.handles.add { interpreter := i, settings := s } })

/-- Destroys a handle, unless that was done before, and deletes its
interpreter. -/
def destroy (handle : Nat) : Program Unit := do
  if (← Program.world).handle handle |>.destroyed then return ()
  Program.modify fun w => w.withHandle handle fun h => { h with destroyed := true }
  Interp.delete ((← Program.world).handle handle).interpreter

/-- Gives up on a handle that could not be made ready. -/
def abandon (handle : Nat) (message : String) : Program (Except BridgeError Nat) := do
  destroy handle
  return .error (.initialization message)

/-- Makes a handle ready: the ad-hoc command and the startup script. -/
def prepare (handle i : Nat) (s : Settings) : Program (Except BridgeError Nat) := do
  if ← Interp.createCommand i s.adhocCommand { procedure := .callGlobal } then
    match ← Interp.start i s.initScript with
    | .error => abandon handle (← Interp.result i).str
    | _ => return .ok handle
  else abandon handle (noCommandMessage s.adhocCommand)

/-- A new handle with its settings. -/
def create (s : Settings) : Program (Except BridgeError Nat) := do
  let i ← addInterpreter s.maxNesting
  match ← Interp.setSystemEncoding i s.systemEncoding with
  | .error =>
    let message := (← Interp.result i).str
    Interp.delete i
    return .error (.initialization message)
  | _ => prepare (← addHandle i s) i s

/-- A number as it is shown for an address. -/
def addressText (n : Nat) : String :=
  "0x" ++ Flags.hex n

/-- The text that describes a handle. -/
def describeHandle (handle : Nat) : String :=
  "ltcl.Interp (" ++ addressText handle ++ ")"

/-- The text that describes a bundle. -/
def describeBundle (bundle : Nat) : String :=
  "ltcl.Vals: " ++ addressText bundle

end Bridge
end CommandBridge
