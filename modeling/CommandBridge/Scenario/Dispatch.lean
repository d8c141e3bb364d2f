/-
# What every call does

`perform` runs the procedure of a command and `handle` carries any call out.
With it a machine runs whole scenarios.
-/

import CommandBridge.Builtin.Run
import CommandBridge.Run.Machine
import CommandBridge.Scenario.BridgeSteps
import CommandBridge.Scenario.InterpreterSteps

namespace CommandBridge
namespace Scenario

/-- Runs the procedure of a command. -/
def perform (i : Nat) (p : Procedure) (words : List Value) : Program Status :=
  match p with
  | .builtin b => b.run i words
  | .callGlobal => Bridge.callGlobal i words
  | .callRegistered handle key => Bridge.callRegistered i handle key words
  | .scripted label body result status => runCommand i label body result status words

/-- Fires a trace. -/
def fireTrace (i : Nat) (t : Trace) (r : VarRef) (flags : Flags) : Program (Option String) :=
  match t.action with
  | .scripted procedure body veto => runTrace i procedure body veto r flags
  | .callback handle => Bridge.fire i handle t r flags

/-- Runs a delete procedure. -/
def runDeleteAction (i : Nat) (action : DeleteAction) : Program Unit :=
  match action with
  | .forget handle key => Bridge.forgetFunction handle key
  | .scripted label body => runDeleted i label body

/-- Carries a call out. -/
def handle : Machine.Handler
  | .eval i script => Interp.evalScript i script
  | .evalWords i words => Interp.evalWords i words
  | .invoke i words => Interp.invokeWith perform i words
  | .fire i t r flags _ => fireTrace i t r flags
  | .deleted i action => runDeleteAction i action
  | .host f args => callValue f args
  | .interpreterStep i step => runStep i step
  | .bridgeStep step => runBridgeStep step

/-- The outcome of a call within a number of machine steps. -/
def outcome (budget : Nat) (c : Call) (w : World) : Option (Ending c.Reply) :=
  Machine.run handle budget (Machine.start handle c w)

end Scenario
end CommandBridge
