/-
# What functions of the host do

A function of the host is a program of its own on what the bridge offers it: it makes values,
calls them, takes steps on the bridge and goes on according to what comes back, until it
returns or fails.  Values that are still to be there after a step are kept under a label.

A list of actions is such a program that takes no decisions.
-/

import CommandBridge.Scenario.Answer

namespace CommandBridge

/-- The message of an error that the host raises. -/
structure HostError where
  message : String
deriving DecidableEq, Repr, Inhabited

/-- What is left to do for a function of the host. -/
inductive Behaviour where
  | done (outcome : Except HostError (List HostValue))
  /-- Makes the values that are described. -/
  | make (literals : List Literal) (next : List HostValue → Behaviour)
  /-- Calls a value. -/
  | call (function : HostValue) (args : List HostValue)
      (next : Except HostError (List HostValue) → Behaviour)
  /-- Takes a step on the bridge. -/
  | step (step : BridgeStep) (next : Scenario.Outcome → Behaviour)
  | log (event : Event) (next : Behaviour)

instance : Inhabited Behaviour := ⟨.done (.ok [])⟩

/-- Runs the actions up to the one that gives the result. -/
def Behaviour.ofActions (args : List HostValue) : List Action → Behaviour
  | [] => .done (.ok [])
  | .step s :: rest => .step s fun outcome => .log (.nested outcome.answer) (ofActions args rest)
  | .result values :: _ => .make values fun vs => .done (.ok vs)
  | .resultArgs :: _ => .done (.ok args)
  | .resultArg k :: _ => .done (.ok [args.getD k .nil])
  | .fail message :: _ => .done (.error ⟨message⟩)
  | .resultStep s :: _ => .step s fun
    | .failed _ message => .done (.error ⟨message⟩)
    | .gave _ value => .done (.ok [value])

end CommandBridge
