/-
# Steps

A scenario is a list of steps.  The steps of an interpreter scenario call the
operations of one interpreter; the steps of a bridge scenario act on a host, its
interpreters and whatever values it has put under labels.  Callbacks are
scenarios too: a trace, a command and its delete procedure run interpreter
steps, and a host function runs actions, which may be bridge steps.
-/

import CommandBridge.Flags
import CommandBridge.Value.Basic

namespace CommandBridge

/-- How a script or a command ended. -/
inductive Status where
  | ok
  | error
  | returned
deriving DecidableEq, Inhabited, Repr

/-- The completion code. -/
def Status.code : Status → Nat
  | .ok => 0
  | .error => 1
  | .returned => 2

/-- An operation of an interpreter, with what its callbacks do.  Variables are
named by a name and an optional key. -/
inductive InterpreterStep where
  | eval (script : String)
  | evalWords (words : List Value)
  | start (script : Option String)
  | read (name : String) (key : Option String) (flags : Flags)
  | write (name : String) (key : Option String) (value : Value) (flags : Flags)
  | unset (name : String) (key : Option String) (flags : Flags)
  | varExists (name : String) (key : Option String)
  | trace (name : String) (key : Option String) (flags : Flags) (client procedure : String)
      (body : List InterpreterStep) (veto : Option String)
  | untrace (name : String) (key : Option String) (flags : Flags) (client : String)
  | traces (name : String) (key : Option String)
  | traceCount (client : String)
  | create (name label : String) (body : List InterpreterStep) (result : Option Value)
      (status : Status) (onDelete : Option (List InterpreterStep))
  | deleteCommand (name : String)
  | hasCommand (name : String)
  | rename (old new : String)
  | commands
  | result
  | setResult (value : Value)
  | resetResult
  | saveResult
  | restoreResult
  | error (message : String)
  | wrongNumArgs (words : List Value) (count : Nat) (usage : String)
  | preserve
  | release
  | guard
  | unguard
  | delete
  | state
  | getEncoding (name : Option String)
  | setSystemEncoding (name : String)
  | encodingNames
  | textToExternal (name : Option String) (src : Bytes) (capacity : Nat)
  | externalToText (name : Option String) (src : Bytes) (capacity : Nat)
deriving Inhabited

/-- A description of a host value.  A table is filled with its items in order
and then with its pairs; its label is set before, so a reference inside it can
close a cycle. -/
inductive Literal where
  | nil
  | bool (b : Bool)
  | int (i : Int64)
  | number (x : Binary64)
  | string (bytes : Bytes)
  | table (items : List Literal) (pairs : List (Literal × Literal)) (label : Option String)
  | ref (label : String)
  | function (label : String)
  | thing
deriving Inhabited

/-- On which value a function of the library is called: the interpreter under
the usual label, a value under another label, or nothing. -/
inductive Receiver where
  | usual
  | label (name : String)
  | nothing
deriving Inhabited

/-- A step of a bridge scenario, without the label its value is kept under.
Where a step acts on an interpreter, `on` is its label. -/
inductive BridgeOp where
  | library (function : String) (args : List Literal) (receiver : Receiver)
  | constant (name : String)
  | setGlobal (name : String) (value : Literal)
  | getGlobal (name : String)
  | callGlobal (name : String) (args : List Literal)
  | hostCall (value : Literal) (args : List Literal)
  | dropHost
  | drop (label : String)
  | value (value : Literal)
  | setTable (label : String) (key value : Literal)
  | engineOf (on : String)
  | engineState (label : String)
  | newInterpreter (settings : Option String)
  | bundleInfo (label : String)
  | teardown (label : String)
  | splice (label : String)
  | eval (on script : String)
  | call (on command : String) (args : List Literal)
  | callTable (on command : String) (table : Literal)
  | makeArgList (on : String) (table : Literal)
  | getVar (on name : String) (key : Option String) (flags : Flags)
  | setVar (on name : String) (key : Option String) (value : Literal) (flags : Flags)
  | unsetVar (on name : String) (key : Option String) (flags : Flags)
  | traceVar (on name : String) (key : Option String) (flags : Flags) (function : String)
  | untraceVar (on name : String) (key : Option String) (flags : Flags) (function : String)
  | register (on name function : String)
  | unregister (on name : String)
  | toExternal (on : String) (src : Bytes) (encoding : Option String)
  | toHost (on : String) (src : Bytes) (encoding : Option String)
  | listEncodings (on : String)
  | bundle (on : String) (values : List Literal)
  | destroy (on : String)
  | repr (on : String)
  | traces (on name : String) (key : Option String)
  | varExists (on name : String) (key : Option String)
  | state (on : String)
  /-- A step of no known kind. -/
  | unknown (kind : String)
deriving Inhabited

/-- A bridge step; its value is kept under `save` if it succeeds. -/
structure BridgeStep where
  op : BridgeOp
  save : Option String := none
deriving Inhabited

/-- What a host function does. -/
inductive Action where
  | step (step : BridgeStep)
  | result (values : List Literal)
  | resultArgs
  | resultArg (index : Nat)
  | fail (message : String)
  | resultStep (step : BridgeStep)
deriving Inhabited

end CommandBridge
