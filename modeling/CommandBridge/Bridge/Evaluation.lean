/-
# Scripts and commands run by the host

The result of an evaluation goes to the host; a failed one leaves its message as
an error.
-/

import CommandBridge.Bridge.Basic

namespace CommandBridge
namespace Bridge

/-- What a finished evaluation gives. -/
def finish (i : Nat) (status : Status) : Program (Except BridgeError HostValue) := do
  match status with
  | .error => resultError i
  | _ => return .ok (← handOver (← Interp.result i))

/-- Evaluates a script. -/
def eval (handle : Nat) (script : String) : Program (Except BridgeError HostValue) :=
  withLive handle fun i => do
    Interp.resetResult i
    finish i (← Program.eval i script)

/-- Invokes a command given by its words. -/
def dispatch (i : Nat) (words : List Value) : Program (Except BridgeError HostValue) := do
  Interp.resetResult i
  finish i (← Program.request (.evalWords i words))

/-- Invokes a command with arguments. -/
def call (handle : Nat) (command : String) (args : List HostValue) :
    Program (Except BridgeError HostValue) :=
  withLive handle fun i =>
    withConverted (wordsOfEach · args) fun words => dispatch i (commandWords command ++ words)

/-- The mark that a handle puts before the names of options. -/
def optionMark (w : World) (handle : Nat) : String :=
  (w.handle handle).settings.optionPrefix

/-- Invokes a command with the arguments that a table holds, if there is one. -/
def callTable (handle : Nat) (command : String) (table : Option Nat) :
    Program (Except BridgeError HostValue) :=
  withLive handle fun i =>
    match table with
    | none => dispatch i (commandWords command)
    | some id =>
      withConverted (fun w => tableWords w (optionMark w handle) (w.heap.table id)) fun words =>
        dispatch i (commandWords command ++ words)

/-- A new table that holds some values. -/
def newTable (vs : List HostValue) : Program HostValue :=
  Program.update fun w =>
    match w.heap.addTable (.ofValues vs) with
    | (x, h) => (x, { w with heap := h })

/-- A new table with a table's values as a sequence of arguments. -/
def makeArgList (mark : String) (table : Option Nat) : Program (Except BridgeError HostValue) :=
  match table with
  | none => do return .ok (← newTable [])
  | some id =>
    withConverted (fun w => argList mark (w.heap.table id)) fun vs => do
      return .ok (← newTable vs)

end Bridge
end CommandBridge
