/-
# Steps of a bridge scenario

A step finds what its labels name, makes what its literals describe, carries one
operation out and answers with the view of what it gave.  What it gave is its value too: the same value,
or the first of several.  Values that a step works on are in use until it ends.

Before and after every step the scenario lets go of what cannot be reached.
-/

import CommandBridge.Host.Show
import CommandBridge.Library.Perform
import CommandBridge.Scenario.Collection

namespace CommandBridge
namespace Scenario

namespace Outcome

/-- Nothing. -/
def unit : Outcome := .gave .unit .nil

/-- The failure of an operation of the bridge. -/
def ofError (e : BridgeError) : Outcome :=
  .failed (.bridge e.kindName) e.message

/-- The failure of a host function. -/
def ofHostError (e : HostError) : Outcome :=
  .failed .host e.message

/-- A step that cannot be carried out at all. -/
def refused (reason : String) : Outcome :=
  .failed .step reason

end Outcome

/-- Makes the value of a literal. -/
def make (l : Literal) : Program HostValue :=
  Program.update fun w => l.make w

/-- Makes the values of literals. -/
def makeEach (ls : List Literal) : Program (List HostValue) :=
  Program.update fun w => Literal.makeEach w ls

/-- A value as a step's outcome. -/
def gaveValue (v : HostValue) : Program Outcome := do
  return .gave (.view ((← Program.world).heap.view v)) v

/-- Values as a step's outcome. -/
def gaveValues (vs : List HostValue) : Program Outcome := do
  let h := (← Program.world).heap
  return .gave (.views (vs.map h.view)) (vs.headD .nil)

/-- What an operation of the bridge gave. -/
def finished {α : Type} (r : Except BridgeError α) (k : α → Program Outcome) : Program Outcome :=
  match r with
  | .ok a => k a
  | .error e => return .ofError e

/-- What an operation gave that gives nothing. -/
def finishedUnit (r : Except BridgeError Unit) : Program Outcome :=
  finished r fun _ => return .unit

/-- What an operation gave that gives bytes. -/
def finishedBytes (r : Except BridgeError Bytes) : Program Outcome :=
  finished r fun bs => gaveValue (.string bs)

/-- What a call of a host value gave. -/
def finishedCall (r : Except HostError (List HostValue)) : Program Outcome :=
  match r with
  | .ok vs => gaveValues vs
  | .error e => return .ofHostError e

/-- Runs an operation on the host, if its owner still keeps it. -/
def onHost (p : Program Outcome) : Program Outcome := do
  if (← Program.world).host.owned then return (← Bridge.withHost p).getD (.refused "no host")
  else return .refused "no host"

/-- Runs an operation on the handle under a label, which is in use meanwhile. -/
def onHandle (label : String) (k : Nat → Program Outcome) : Program Outcome := do
  let w ← Program.world
  match w.heap.object? (w.labelled label) with
  | some (.handle id) => Bridge.holding [w.labelled label] (k id)
  | _ => return .refused "not an interpreter"

/-- Runs an operation with the value of a literal, which is in use meanwhile. -/
def withValue (l : Literal) (k : HostValue → Program Outcome) : Program Outcome := do
  let v ← make l
  Bridge.holding [v] (k v)

/-- Runs an operation with the values of literals, which are in use meanwhile. -/
def withValues (ls : List Literal) (k : List HostValue → Program Outcome) :
    Program Outcome := do
  let vs ← makeEach ls
  Bridge.holding vs (k vs)

/-- Runs an operation on the bundle under a label. -/
def onBundle (label : String) (k : Nat → Program Outcome) : Program Outcome := do
  let w ← Program.world
  match w.heap.object? (w.labelled label) with
  | some (.bundle id) => k id
  | _ => return .refused "not a bundle"

/-- Runs an operation with the function under a label. -/
def withFunction (label : String) (k : Nat → Program Outcome) : Program Outcome := do
  match (← Program.world).labelled label with
  | .function id => k id
  | _ => return .refused "not a function"

/-- What is left of a bundle. -/
def bundleInfo (id : Nat) : Program Outcome := do
  let b := (← Program.world).bundle id
  return .gave (.bundle b.held b.isTornDown) .nil

/-- The words of a command with the values of a bundle. -/
def splice (id : Nat) : Program Outcome := do
  match ((← Program.world).bundle id).values with
  | none => return .ofError (ConversionError.toBridge .releasedBundle)
  | some values =>
    return .gave (.spliced values.length (Bridge.commandWords "cmd" ++ values)) .nil

/-- The number of a table value. -/
def tableId? : HostValue → Option Nat
  | .table id => some id
  | _ => none

/-- The name that a trace client is shown by: that of a function has the
function's label instead of its number. -/
def shownClient (w : World) (client : String) : String :=
  match w.heap.functions.entries.toList.find? fun p => Bridge.clientName p.1 == client with
  | some (_, f) => Bridge.clientMarker ++ "<" ++ f.label ++ ">"
  | none => client

/-- Characters with `?` in place of the digits behind every `0x`. -/
def maskAddresses : List Char → List Char
  | '0' :: 'x' :: d :: r =>
    if (Integer.digit? 16 d).isSome then
      '0' :: 'x' :: '?' :: maskAddresses (r.dropWhile fun c => (Integer.digit? 16 c).isSome)
    else '0' :: maskAddresses ('x' :: d :: r)
  | c :: r => c :: maskAddresses r
  | [] => []
termination_by cs => cs.length
decreasing_by
  · have := (List.dropWhile_suffix (l := r) fun c => (Integer.digit? 16 c).isSome).length_le
    simp only [List.length_cons]
    omega
  · simp
  · simp

/-- A text without addresses. -/
def masked (s : String) : String :=
  String.ofList (maskAddresses s.toList)

/-- What a text without its addresses gives: the text is shown, and the step has
no value. -/
def gaveMasked (s : String) : Outcome :=
  .gave (.text (masked s)) .nil

/-- Calls a library function. -/
def callLibrary (function : String) (args : List HostValue) : Program Outcome := do
  let w ← Program.world
  let f := (w.heap.table w.bench.library).field function
  let r ← Program.callHost f args
  match r with
  | .ok vs =>
    if function == "tostring" then return gaveMasked (((vs.headD .nil).text?).getD "")
    else gaveValues vs
  | .error e => return .ofHostError e

/-- The values in front of the arguments of a library function. -/
def receiverValues (w : World) : Receiver → List HostValue
  | .usual => [w.labelled "i"]
  | .label name => [w.labelled name]
  | .nothing => []

/-- Calls a global of the host. -/
def callGlobal (name : String) (args : List HostValue) : Program Outcome := do
  let f := Bridge.global (← Program.world) name
  if f.isNil then
    return .ofHostError ⟨"attempt to call global '" ++ name ++ "' (a nil value)"⟩
  else finishedCall (← Program.callHost f args)

/-- Writes into a table. -/
def setTable (id : Nat) (key value : HostValue) : Program Outcome := do
  match ((← Program.world).heap.table id).insert key value with
  | .ok t =>
    Program.modify fun w => { w with heap := w.heap.setTable id t }
    return .unit
  | .error e => return .ofHostError ⟨e.message⟩

/-- Runs an operation on the table under a label. -/
def onTable (label : String) (k : Nat → Program Outcome) : Program Outcome := do
  match (← Program.world).labelled label with
  | .table id => k id
  | _ => return .refused "not a table"

/-- Makes a handle with the settings of a text. -/
def newInterpreter (settings : Option String) : Program Outcome := do
  match (settings.map Settings.ofText).getD (.ok {}) with
  | .error _ => return .refused "bad config"
  | .ok s => onHost do finished (← Request.createObject s) gaveValue

/-- The state of a handle. -/
def handleState (id : Nat) : Program Outcome := do
  let w ← Program.world
  let h := w.handle id
  let s := w.interpreter h.interpreter
  let names := (h.functions.keys.map (shownClient w)).mergeSort (· ≤ ·)
  return .gave (.bridgeState names h.destroyed s.deleted s.disposed s.preserved s.result
    w.host.alive) .nil

/-- The traces on a variable or element, with the clients as they are shown. -/
def shownTraces (id : Nat) (name : String) (key : Option String) : Program Outcome := do
  let w ← Program.world
  let traces ← Interp.tracesOn (w.handle id).interpreter name key
  return .gave (.traces (traces.map fun t => (shownClient w t.client, t.flags))) .nil

/-- Carries the operation of a step out; `save` is the label that `engineOf` uses
itself. -/
def runOp (save : Option String) (op : BridgeOp) : Program Outcome :=
  match op with
  | .library function args receiver => onHost do
    let front := receiverValues (← Program.world) receiver
    callLibrary function (front ++ (← makeEach args))
  | .constant name => do
    let w ← Program.world
    gaveValue ((w.heap.table w.bench.library).field name)
  | .setGlobal name value => onHost do
    let v ← make value
    Program.modify (·.setGlobal name v)
    return .unit
  | .getGlobal name => onHost do gaveValue (Bridge.global (← Program.world) name)
  | .callGlobal name args => onHost do callGlobal name (← makeEach args)
  | .hostCall value args => onHost do
    let f ← make value
    finishedCall (← Program.callHost f (← makeEach args))
  | .dropHost => do
    Program.modify fun w => { w with host := { w.host with owned := false } }
    return .unit
  | .drop label => do
    Program.modify (·.dropLabel label)
    return .unit
  | .value value => do gaveValue (← make value)
  | .setTable label key value => onTable label fun id => do
    let k ← make key
    setTable id k (← make value)
  | .engineOf on => onHandle on fun id => do
    let v ← Bridge.newObject (.engine ((← Program.world).handle id).interpreter)
    Program.modify (·.setLabel? save v)
    return .unit
  | .engineState label => do
    let w ← Program.world
    match w.heap.object? (w.labelled label) with
    | some (.engine i) =>
      let s := w.interpreter i
      return .gave (.lifetime s.deleted s.disposed s.preserved) .nil
    | _ => return .refused "not an engine"
  | .newInterpreter settings => newInterpreter settings
  | .bundleInfo label => onBundle label bundleInfo
  | .teardown label => onBundle label fun id => do
    Bridge.teardown id
    bundleInfo id
  | .splice label => onBundle label splice
  | .eval on script => onHandle on fun id => do
    finished (← Bridge.eval id script) gaveValue
  | .call on command args => onHandle on fun id => withValues args fun vs => do
    finished (← Bridge.call id command vs) gaveValue
  | .callTable on command table => onHandle on fun id => withValue table fun t => do
    finished (← Bridge.callTable id command (tableId? t)) gaveValue
  | .makeArgList on table => onHandle on fun id => withValue table fun t => do
    let mark := Bridge.optionMark (← Program.world) id
    finished (← Bridge.makeArgList mark (tableId? t)) gaveValue
  | .getVar on name key flags => onHandle on fun id => do
    finished (← Bridge.getVar id name key flags) gaveValue
  | .setVar on name key value flags => onHandle on fun id => withValue value fun v => do
    finished (← Bridge.setVar id name key v flags) gaveValue
  | .unsetVar on name key flags => onHandle on fun id => do
    finishedUnit (← Bridge.unsetVar id name key flags)
  | .traceVar on name key flags function => onHandle on fun id =>
    withFunction function fun f => do
      finishedUnit (← Bridge.traceVar id name key flags f)
  | .untraceVar on name key flags function => onHandle on fun id =>
    withFunction function fun f => do
      finishedUnit (← Bridge.untraceVar id name key flags f)
  | .register on name function => onHandle on fun id =>
    withFunction function fun f => do finishedUnit (← Bridge.register id name f)
  | .unregister on name => onHandle on fun id => do
    finishedUnit (← Bridge.unregister id name)
  | .toExternal on src encoding => onHandle on fun id => do
    finishedBytes (← Bridge.toExternal id src encoding)
  | .toHost on src encoding => onHandle on fun id => do
    finishedBytes (← Bridge.toHostEncoding id src encoding)
  | .listEncodings on => onHandle on fun id => do
    finished (← Bridge.listEncodings id) gaveValue
  | .bundle on values => onHandle on fun id => withValues values fun vs => do
    let i := ((← Program.world).handle id).interpreter
    finished (← Bridge.buildBundle i vs) gaveValue
  | .destroy on => onHandle on fun id => do
    Bridge.destroy id
    return .unit
  | .repr on => onHandle on fun id =>
    return gaveMasked (Bridge.describeHandle id)
  | .traces on name key => onHandle on fun id => shownTraces id name key
  | .varExists on name key => onHandle on fun id => do
    let i := ((← Program.world).handle id).interpreter
    return .gave (.bool (← Interp.varExists i name key)) .nil
  | .state on => onHandle on handleState
  | .unknown kind => return .refused ("unknown step " ++ kind)

/-- Keeps the value of a step under its label, if it gave one and did not keep its
own. -/
def keep (step : BridgeStep) (outcome : Outcome) : Program Unit :=
  match step.op, outcome with
  | .engineOf _, _ => return ()
  | _, .gave _ v => Program.modify (·.setLabel? step.save v)
  | _, .failed _ _ => return ()

/-- Runs a step. -/
def runBridgeStep (step : BridgeStep) : Program Outcome := do
  collect
  let outcome ← runOp step.save step.op
  keep step outcome
  Bridge.holding [outcome.value] collect
  return outcome

/-- Does what is left to do for a function of the host. -/
def runBehaviour : Behaviour → Program (Except HostError (List HostValue))
  | .done outcome => return outcome
  | .make literals next => do runBehaviour (next (← makeEach literals))
  | .call f args next => do runBehaviour (next (← Program.callHost f args))
  | .step s next => do runBehaviour (next (← Program.request (.bridgeStep s)))
  | .log e next => do
    Program.log e
    runBehaviour next

/-- Calls a function of the host. -/
def callFunction (f : HostFunction) (args : List HostValue) :
    Program (Except HostError (List HostValue)) :=
  match f with
  | .library f => f.run args
  | .silent _ => return .ok []
  | .scripted label behave => do
    let h := (← Program.world).heap
    Program.log (.call label (args.map h.view))
    runBehaviour (behave args)

/-- Calls a host value; only functions can be called. -/
def callValue (f : HostValue) (args : List HostValue) :
    Program (Except HostError (List HostValue)) :=
  match f with
  | .function id => do
    let function := (← Program.world).heap.functions.get id
    Bridge.holding args (callFunction function args)
  | v => return .error ⟨"attempt to call a " ++ v.typeName ++ " value"⟩

end Scenario
end CommandBridge
