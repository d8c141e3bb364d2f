/-
# Steps of an interpreter scenario

Each step calls one operation of the interpreter and answers with what it gave.
The callbacks that steps install are run here as well: they log themselves and
run the steps they were made of.
-/

import CommandBridge.Interpreter.Evaluate

namespace CommandBridge
namespace Scenario

/-- The answer of an operation with a status. -/
def ended (i : Nat) (status : Status) : Program Answer := do
  return .ended status (← Interp.result i)

/-- The answer of an operation that may give a value. -/
def given (i : Nat) (v : Option Value) : Program Answer := do
  match v with
  | some v => return .value v
  | none => return .noValue (← Interp.result i)

/-- The number of uses of an interpreter. -/
def useCount (i : Nat) : Program Answer := do
  return .count (← Program.interpreter i).preserved

/-- The value in the result register. -/
def register (i : Nat) : Program Answer := do
  return .value (← Interp.result i)

/-- Changes the bench. -/
def modifyBench (f : Bench → Bench) : Program Unit :=
  Program.modify fun w => { w with bench := f w.bench }

/-- Takes the result out of the register and puts it aside. -/
def saveResult (i : Nat) : Program Unit := do
  let saved ← Interp.result i
  modifyBench fun b => { b with savedResults := saved :: b.savedResults }
  Interp.resetResult i

/-- Puts the result that was put aside last back into the register. -/
def restoreResult (i : Nat) : Program Unit := do
  match (← Program.world).bench.savedResults with
  | [] => return ()
  | saved :: rest =>
    modifyBench fun b => { b with savedResults := rest }
    Interp.setResult i saved

/-- Adds a guard: one more use of the interpreter. -/
def addGuard (i : Nat) : Program Unit := do
  modifyBench fun b => { b with guards := i :: b.guards }
  Interp.preserve i

/-- Drops the guard that was added last. -/
def dropGuard : Program Unit := do
  match (← Program.world).bench.guards with
  | [] => return ()
  | i :: rest =>
    modifyBench fun b => { b with guards := rest }
    Interp.release i

/-- The encoding for a conversion; an unknown one leaves its message and is
replaced by the system encoding. -/
def codecFor (i : Nat) (name : Option String) : Program Codec := do
  match ← Interp.findEncoding i name with
  | some e => return e.codec
  | none => return (← Program.interpreter i).systemEncoding.codec

/-- Runs a step. -/
def runStep (i : Nat) (step : InterpreterStep) : Program Answer :=
  match step with
  | .eval script => do ended i (← Program.eval i script)
  | .evalWords words => do ended i (← Program.request (.evalWords i words))
  | .start script => do ended i (← Interp.start i script)
  | .read name key flags => do given i (← Interp.read i name key flags)
  | .write name key value flags => do given i (← Interp.write i name key value flags)
  | .unset name key flags => do ended i (← Interp.unset i name key flags)
  | .varExists name key => do return .bool (← Interp.varExists i name key)
  | .trace name key flags client procedure body veto => do
    ended i (← Interp.addTrace i name key
      { flags, client, action := .scripted procedure body veto })
  | .untrace name key flags client => do
    return .bool (← Interp.removeTrace i name key flags client)
  | .traces name key => do
    return .traces ((← Interp.tracesOn i name key).map fun t => (t.client, t.flags))
  | .traceCount client => do
    return .count ((← Program.interpreter i).vars.clientCount client)
  | .create name label body result status onDelete => do
    return .bool (← Interp.createCommand i name
      { procedure := .scripted label body result status
        onDelete := onDelete.map (.scripted label) })
  | .deleteCommand name => do return .bool (← Interp.deleteCommand i name)
  | .hasCommand name => do return .bool ((← Program.interpreter i).hasCommand name)
  | .rename old new => do ended i (← Interp.renameCommand i old new)
  | .commands => do return .names (← Program.interpreter i).commandNames
  | .result => do return .register (← Interp.result i)
  | .setResult value => do
    Interp.setResult i value
    return .unit
  | .resetResult => do
    Interp.resetResult i
    return .unit
  | .saveResult => do
    saveResult i
    register i
  | .restoreResult => do
    restoreResult i
    register i
  | .error message => do ended i (← Interp.fail i message)
  | .wrongNumArgs words count usage => do
    ended i (← Interp.wrongNumArgs i words count usage)
  | .preserve => do
    Interp.preserve i
    useCount i
  | .release => do
    Interp.release i
    useCount i
  | .guard => do
    addGuard i
    useCount i
  | .unguard => do
    dropGuard
    useCount i
  | .delete => do
    Interp.delete i
    return .unit
  | .state => do
    let s ← Program.interpreter i
    return .interpreterState s.deleted s.disposed s.preserved s.systemEncoding.name
  | .getEncoding name => do
    let e ← Interp.findEncoding i name
    return .encoding (e.map (·.name)) (← Interp.result i)
  | .setSystemEncoding name => do ended i (← Interp.setSystemEncoding i name)
  | .encodingNames => do
    Interp.listEncodings i
    register i
  | .textToExternal name src capacity => do
    return .bytes ((← codecFor i name).ofText capacity src)
  | .externalToText name src capacity => do
    return .bytes ((← codecFor i name).toText capacity src)

/-- Runs the steps of a callback and logs their answers. -/
def runBody (i : Nat) (body : List InterpreterStep) : Program Unit :=
  Program.each (fun step => do
    let answer ← Program.request (.interpreterStep i step)
    Program.log (.nested answer)) body

/-- The procedure of a scripted command. -/
def runCommand (i : Nat) (label : String) (body : List InterpreterStep) (result : Option Value)
    (status : Status) (words : List Value) : Program Status := do
  Program.log (.command label words)
  runBody i body
  match result with
  | some v => Interp.setResult i v
  | none => pure ()
  return status

/-- The procedure of a scripted trace. -/
def runTrace (i : Nat) (procedure : String) (body : List InterpreterStep) (veto : Option String)
    (r : VarRef) (flags : Flags) : Program (Option String) := do
  Program.log (.trace procedure r.name r.key flags)
  runBody i body
  return veto

/-- The delete procedure of a scripted command. -/
def runDeleted (i : Nat) (label : String) (body : List InterpreterStep) : Program Unit := do
  Program.log (.deleted label)
  runBody i body

end Scenario
end CommandBridge
