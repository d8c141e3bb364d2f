/-
# Host functions as variable traces

A trace of the bridge calls a host function with the name, the key and the
flags of the access.  If the function returns a text that is not empty, or
fails, the access fails with that message.  The result register is as before
afterwards.

A trace is known by a client name made of the identity of its function, so the
same function on the same variable with the same flags is installed once, and
all traces of one function share one place in the function table.  A trace that
asks for unsets is told when its variable goes away and installs itself again.
-/

import CommandBridge.Bridge.Callback

namespace CommandBridge
namespace Bridge

/-- What every client name starts with. -/
def clientMarker : String := "_tracefunc"

/-- A number in hexadecimal with at least sixteen digits. -/
def hex16 (n : Nat) : String :=
  let digits := Nat.toDigits 16 n
  String.ofList (List.replicate (16 - digits.length) '0' ++ digits)

/-- The client name of the traces that call a function. -/
def clientName (function : Nat) : String :=
  clientMarker ++ hex16 function

/-- The flags that a trace is installed with. -/
def traceFlags (flags : Flags) : Flags :=
  flags.union .traceResultDynamic

/-- Whether a trace has this client and exactly these flags. -/
def isInstalled (client : String) (flags : Flags) (t : Trace) : Bool :=
  t.client == client && t.flags == flags

/-- Calls a function on accesses to a variable or element. -/
def traceVar (handle : Nat) (name : String) (key : Option String) (flags : Flags)
    (function : Nat) : Program (Except BridgeError Unit) :=
  withLive handle fun i => do
    let client := clientName function
    let flags := traceFlags flags
    let status ←
      if (← Interp.tracesOn i name key).any (isInstalled client flags) then pure .ok
      else Interp.addTrace i name key { flags, client, action := .callback handle }
    match status with
    | .error => resultError i
    | _ =>
      keepFunction handle client function
      return .ok ()

/-- Removes such a trace; a missing one is ignored.  With its last trace the
function goes too. -/
def untraceVar (handle : Nat) (name : String) (key : Option String) (flags : Flags)
    (function : Nat) : Program (Except BridgeError Unit) :=
  withLive handle fun i => do
    let client := clientName function
    let _ ← Interp.removeTrace i name key (traceFlags flags) client
    if (← Program.interpreter i).vars.clientCount client = 0 then
      forgetFunction handle client
    return .ok ()

/-- The message of a veto: the first returned value, if it has a text that is not
empty, or the failure. -/
def vetoOf (outcome : Except HostError (List HostValue)) : Option String :=
  match outcome with
  | .error e => some e.message
  | .ok values =>
    ((values.head?.bind HostValue.coerceBytes?).map Utf8.textReplacing).filter (!·.isEmpty)

/-- The arguments of a callback. -/
def callbackArgs (r : VarRef) (flags : Flags) : List HostValue :=
  [.ofText r.name, (r.key.map HostValue.ofText).getD .nil, .int (Int64.ofInt flags.toInt)]

/-- Calls the function of a trace between saving and restoring the result
register. -/
def callTraced (i handle : Nat) (client : String) (r : VarRef) (flags : Flags) :
    Program (Option String) := do
  let f := functionOf (← Program.world) handle client
  let saved ← Interp.result i
  Interp.resetResult i
  let outcome ← Program.callHost f (callbackArgs r flags)
  Interp.setResult i saved
  return vetoOf outcome

/-- Fires a trace of the bridge. -/
def fire (i handle : Nat) (t : Trace) (r : VarRef) (flags : Flags) :
    Program (Option String) := do
  if flags.contains .interpDestroyed then return none
  else if flags.contains .traceDestroyed then
    match ← Interp.addTrace i r.name r.key t with
    | .error => return some (← Interp.result i).str
    | _ => return none
  else return (← withHost (callTraced i handle t.client r flags)).join

end Bridge
end CommandBridge
