/-
# Access to variables

Reading a variable or element fires its read traces first, writing it fires the
write traces afterwards, and appending does both.  A trace may veto the access
with a message; the first message wins.  While the traces of a variable or
element fire, its other accesses fire none.  Unsetting takes the variable or
element away first and then fires the unset traces, which cannot veto.

What is fired is what there was at first: a trace that is removed meanwhile still
has its turn.
-/

import CommandBridge.Run.Program

namespace CommandBridge
namespace Interp

/-- Puts a value into the result register. -/
def setResult (i : Nat) (v : Value) : Program Unit :=
  Program.modifyInterpreter i fun s => { s with result := v }

/-- Empties the result register. -/
def resetResult (i : Nat) : Program Unit :=
  setResult i .empty

/-- Leaves a message in the result register and reports an error. -/
def fail (i : Nat) (message : String) : Program Status := do
  setResult i (.text message)
  return .error

/-- The value in the result register. -/
def result (i : Nat) : Program Value :=
  Program.reading fun w => (w.interpreter i).result

/-- The message for a wrong number of arguments: the first `count` words and
the usage of the rest. -/
def usageMessage (words : List Value) (count : Nat) (usage : String) : String :=
  "wrong # args: should be \"" ++ " ".intercalate ((words.take count).map Value.str) ++
    (if usage.isEmpty then "" else " " ++ usage) ++ "\""

/-- Reports a wrong number of arguments. -/
def wrongNumArgs (i : Nat) (words : List Value) (count : Nat) (usage : String) : Program Status :=
  fail i (usageMessage words count usage)

/-- The message for a failed access. -/
def accessMessage (verb : String) (r : VarRef) (reason : String) : String :=
  "can't " ++ verb ++ " \"" ++ r.shown ++ "\": " ++ reason

/-- Leaves the message for a failed access if the flags ask for it. -/
def reportAccess (i : Nat) (flags : Flags) (verb : String) (r : VarRef) (reason : String) :
    Program Unit :=
  if flags.contains .leaveErrorMessage then setResult i (.text (accessMessage verb r reason))
  else pure ()

/-- Marks the traces of a variable or element as firing. -/
def enterTraces (i : Nat) (r : VarRef) : Program Unit :=
  Program.modifyInterpreter i fun s => { s with active := r :: s.active }

/-- Ends what `enterTraces` began. -/
def leaveTraces (i : Nat) : Program Unit :=
  Program.modifyInterpreter i fun s => { s with active := s.active.tail }

/-- Traces that are to be fired alike. -/
def firings (r : VarRef) (flags : Flags) (traces : List Trace) : List Firing :=
  traces.map fun t => ⟨t, r, flags⟩

/-- Fires traces up to the first that vetoes. -/
def fireEach (i : Nat) (r : VarRef) (flags : Flags) : List Trace → Program (Option String)
  | [] => pure none
  | t :: rest => do
    match ← Program.request (.fire i t r flags (firings r flags rest)) with
    | some message => return some message
    | none => fireEach i r flags rest

/-- Fires the traces on an access; the message of a veto comes back. -/
def fireTraces (i : Nat) (r : VarRef) (op flags : Flags) : Program (Option String) := do
  let s ← Program.interpreter i
  let traces := s.vars.tracesFor r op
  if s.active.contains r || traces.isEmpty then return none
  enterTraces i r
  let veto ← fireEach i r (op.union flags.scope) traces
  leaveTraces i
  return veto

/-- Reads a variable or element. -/
def readRef (i : Nat) (r : VarRef) (flags : Flags) : Program (Option Value) := do
  match ← fireTraces i r .traceReads flags with
  | some message =>
    reportAccess i flags "read" r message
    return none
  | none =>
    match (← Program.interpreter i).vars.read r with
    | .ok value => return some value
    | .error e =>
      reportAccess i flags "read" r e.message
      return none

/-- Reads a variable or element. -/
def read (i : Nat) (name : String) (key : Option String) (flags : Flags) :
    Program (Option Value) :=
  readRef i (VarRef.resolve name key) flags

/-- Writes a variable or element without any traces. -/
def store (i : Nat) (r : VarRef) (value : Value) (flags : Flags) :
    Program (Except VarError Value) :=
  Program.update fun w =>
    match (w.interpreter i).vars.store r value flags with
    | .error e => (.error e, w)
    | .ok (new, vs) => (.ok new, w.withInterpreter i fun s => { s with vars := vs })

/-- Writes a variable or element and fires the write traces; the value that it
has afterwards comes back. -/
def writeRef (i : Nat) (r : VarRef) (value : Value) (flags : Flags) : Program (Option Value) := do
  match ← store i r value flags with
  | .error e =>
    reportAccess i flags "set" r e.message
    return none
  | .ok stored =>
    match ← fireTraces i r .traceWrites flags with
    | some message =>
      reportAccess i flags "set" r message
      return none
    | none =>
      match (← Program.interpreter i).vars.read r with
      | .ok value => return some value
      | .error _ => return some stored

/-- Writes a variable or element, or appends to it.  Appending fires the read
traces first. -/
def write (i : Nat) (name : String) (key : Option String) (value : Value) (flags : Flags) :
    Program (Option Value) := do
  let r := VarRef.resolve name key
  let veto ←
    if flags.contains .appendValue then fireTraces i r .traceReads flags else pure none
  match veto with
  | some message =>
    reportAccess i flags "read" r message
    return none
  | none => writeRef i r value flags

/-- The flags that the traces of a group are fired with. -/
def groupFlags (extra : Flags) (g : UnsetGroup) : Flags :=
  (Flags.traceUnsets.union extra).union (if g.destroyed then .traceDestroyed else .none)

/-- Those traces of a group that ask for unsets. -/
def groupTraces (g : UnsetGroup) : List Trace :=
  g.traces.filter (·.flags.contains .traceUnsets)

/-- What there is to fire for some groups. -/
def groupFirings (name : String) (extra : Flags) (groups : List UnsetGroup) : List Firing :=
  groups.flatMap fun g => firings ⟨name, g.key⟩ (groupFlags extra g) (groupTraces g)

/-- Fires traces that cannot veto, and later others. -/
def fireAll (i : Nat) (r : VarRef) (flags : Flags) (others : List Firing)
    (traces : List Trace) : Program Unit :=
  Program.eachWithRest (fun t rest => do
    let _ ← Program.request (.fire i t r flags (firings r flags rest ++ others))) traces

/-- Fires the unset traces of one group, before those of the others. -/
def fireGroup (i : Nat) (name : String) (extra : Flags) (g : UnsetGroup)
    (others : List UnsetGroup) : Program Unit := do
  let r : VarRef := ⟨name, g.key⟩
  let s ← Program.interpreter i
  if s.active.contains r then return ()
  enterTraces i r
  fireAll i r (groupFlags extra g) (groupFirings name extra others) (groupTraces g)
  leaveTraces i

/-- Fires the unset traces of some groups. -/
def fireUnset (i : Nat) (name : String) (extra : Flags) (groups : List UnsetGroup) :
    Program Unit :=
  Program.eachWithRest (fireGroup i name extra) groups

/-- Takes a variable or element away without any traces. -/
def detach (i : Nat) (r : VarRef) : Program (Except VarError (List UnsetGroup)) :=
  Program.update fun w =>
    match (w.interpreter i).vars.detach r with
    | .error e => (.error e, w)
    | .ok (groups, vs) => (.ok groups, w.withInterpreter i fun s => { s with vars := vs })

/-- Unsets a variable or element. -/
def unset (i : Nat) (name : String) (key : Option String) (flags : Flags) : Program Status := do
  let r := VarRef.resolve name key
  match ← detach i r with
  | .error e =>
    reportAccess i flags "unset" r e.message
    return .error
  | .ok groups =>
    fireUnset i r.name flags.scope groups
    return .ok

/-- Installs a trace. -/
def addTrace (i : Nat) (name : String) (key : Option String) (t : Trace) : Program Status := do
  let r := VarRef.resolve name key
  match (← Program.interpreter i).vars.addTrace r t with
  | .ok vs =>
    Program.modifyInterpreter i fun s => { s with vars := vs }
    return .ok
  | .error e => fail i (accessMessage "trace" r e.message)

/-- Removes a trace; tells whether there was one. -/
def removeTrace (i : Nat) (name : String) (key : Option String) (flags : Flags)
    (client : String) : Program Bool :=
  Program.update fun w =>
    let (found, vs) := (w.interpreter i).vars.removeTrace (VarRef.resolve name key) flags client
    (found, w.withInterpreter i fun s => { s with vars := vs })

/-- The traces on a variable or element, newest first. -/
def tracesOn (i : Nat) (name : String) (key : Option String) : Program (List Trace) :=
  Program.reading fun w => (w.interpreter i).vars.tracesOn (VarRef.resolve name key)

/-- Whether a variable or element has a value. -/
def varExists (i : Nat) (name : String) (key : Option String) : Program Bool :=
  Program.reading fun w => (w.interpreter i).vars.defined (VarRef.resolve name key)

end Interp
end CommandBridge
