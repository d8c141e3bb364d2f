/-
# The lifetime of interpreters

Whoever uses an interpreter preserves it and releases it afterwards.  Deleting
it only marks it; it is disposed of as soon as it is deleted and nobody uses it.
The disposal happens once: it takes all commands away and runs their delete
procedures, then takes all variables away and fires their unset traces, both in no
particular order.  The
result register is left alone, so a command that deletes its own interpreter
still has a result.
-/

import CommandBridge.Interpreter.Access

namespace CommandBridge
namespace Interp

/-- Runs a delete procedure, if there is one. -/
def runDelete (i : Nat) : Option DeleteAction → Program Unit
  | none => pure ()
  | some action => Program.request (.deleted i action)

/-- Takes all commands away, in some order. -/
def takeCommands (i : Nat) : Program (List Command) :=
  Program.update fun w =>
    (w.order.commands i ((w.interpreter i).commands.toList.map (·.2)),
      w.withInterpreter i fun s => { s with commands := ∅ })

/-- Takes all variables away, in some order. -/
def takeVariables (i : Nat) : Program (List (String × Variable)) :=
  Program.update fun w =>
    (w.order.vars i (w.interpreter i).vars.toList,
      w.withInterpreter i fun s => { s with vars := ∅ })

/-- Takes an interpreter down, unless that was done before. -/
def dispose (i : Nat) : Program Unit := do
  if (← Program.interpreter i).disposed then return ()
  Program.modifyInterpreter i fun s => { s with disposed := true }
  let commands ← takeCommands i
  Program.each (fun c => runDelete i c.onDelete) commands
  let vars ← takeVariables i
  Program.each (fun p => fireUnset i p.1 (Flags.interpDestroyed.union .globalOnly)
    (Variables.wholeGroups p.2)) vars
  Program.modifyInterpreter i fun s => { s with vars := ∅ }

/-- Keeps an interpreter from being disposed of. -/
def preserve (i : Nat) : Program Unit :=
  Program.modifyInterpreter i fun s => { s with preserved := s.preserved + 1 }

/-- Ends one use of an interpreter. -/
def release (i : Nat) : Program Unit := do
  Program.modifyInterpreter i fun s => { s with preserved := s.preserved - 1 }
  let s ← Program.interpreter i
  if s.preserved = 0 ∧ s.deleted then dispose i

/-- Deletes an interpreter. -/
def delete (i : Nat) : Program Unit := do
  if (← Program.interpreter i).deleted then return ()
  Program.modifyInterpreter i fun s => { s with deleted := true }
  if (← Program.interpreter i).preserved = 0 then dispose i

/-- Takes a command away. -/
def takeCommand (i : Nat) (name : String) : Program (Option Command) :=
  Program.update fun w =>
    ((w.interpreter i).commands[name]?,
      w.withInterpreter i fun s => { s with commands := s.commands.erase name })

/-- Puts a command under a name. -/
def putCommand (i : Nat) (name : String) (c : Command) : Program Unit :=
  Program.modifyInterpreter i fun s => { s with commands := s.commands.insert name c }

/-- Creates a command.  One that had the name is taken away first, with its
delete procedure.  A deleted interpreter takes no commands. -/
def createCommand (i : Nat) (name : String) (c : Command) : Program Bool := do
  if (← Program.interpreter i).deleted then return false
  let previous ← takeCommand i name
  runDelete i (previous.bind (·.onDelete))
  putCommand i name c
  return true

/-- Deletes a command; tells whether there was one. -/
def deleteCommand (i : Nat) (name : String) : Program Bool := do
  match ← takeCommand i name with
  | none => return false
  | some c =>
    runDelete i c.onDelete
    return true

/-- Renames a command; an empty new name deletes it. -/
def renameCommand (i : Nat) (old new : String) : Program Status := do
  let s ← Program.interpreter i
  if !s.hasCommand old then
    fail i ("can't rename \"" ++ old ++ "\": command doesn't exist")
  else if new.isEmpty then
    let _ ← deleteCommand i old
    return .ok
  else if s.hasCommand new then
    fail i ("can't rename to \"" ++ new ++ "\": command already exists")
  else
    match ← takeCommand i old with
    | none => return .ok
    | some c =>
      putCommand i new c
      return .ok

/-- The encoding of a name, the system encoding without one.  An unknown name
leaves a message. -/
def findEncoding (i : Nat) (name : Option String) : Program (Option Encoding) :=
  match name with
  | none => do return some (← Program.interpreter i).systemEncoding
  | some name =>
    match Encoding.find? name with
    | some e => return some e
    | none => do
      setResult i (.text ("unknown encoding \"" ++ name ++ "\""))
      return none

/-- Chooses the system encoding. -/
def setSystemEncoding (i : Nat) (name : String) : Program Status := do
  match ← findEncoding i (some name) with
  | none => return .error
  | some e =>
    Program.modifyInterpreter i fun s => { s with systemEncoding := e }
    return .ok

/-- Leaves the list of the encoding names in the result register. -/
def listEncodings (i : Nat) : Program Unit :=
  setResult i (.list (Encoding.names.map .text))

end Interp
end CommandBridge
