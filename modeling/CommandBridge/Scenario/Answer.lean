/-
# Answers and events

Each step of a scenario has an answer, and what callbacks do in between is
logged as events.  The outcome of a step on the bridge is its answer with its
value, or a failure.  A failure keeps its whole message; the answer to the step
tells the message without diagnostics.
-/

import CommandBridge.Bytes.Encoding
import CommandBridge.Host.View
import CommandBridge.Scenario.Step

namespace CommandBridge

/-- Where a failure comes from. -/
inductive FailureSource where
  /-- An operation of the bridge, with the name of the kind of its error. -/
  | bridge (kindName : String)
  /-- A host function. -/
  | host
  /-- The step itself, which cannot be carried out at all. -/
  | step
deriving DecidableEq, Inhabited, Repr

/-- The answer to a step. -/
inductive Answer where
  /-- A completion status and the result register. -/
  | ended (status : Status) (result : Value)
  | value (value : Value)
  /-- No value; the result register tells why. -/
  | noValue (result : Value)
  | bool (b : Bool)
  | count (n : Nat)
  | unit
  | names (names : List String)
  | traces (traces : List (String × Flags))
  | register (value : Value)
  | bytes (bytes : Bytes)
  | interpreterState (deleted disposed : Bool) (preserved : Nat) (systemEncoding : String)
  | encoding (name : Option String) (result : Value)
  | view (view : View)
  | views (views : List View)
  | text (s : String)
  | bundle (values : List Value) (tornDown : Bool)
  | spliced (count : Nat) (words : List Value)
  | lifetime (deleted disposed : Bool) (preserved : Nat)
  | bridgeState (functions : List String) (destroyed deleted disposed : Bool) (preserved : Nat)
      (result : Value) (host : Bool)
  | failure (source : FailureSource) (message : String)
deriving Inhabited, Repr

/-- What happened in a callback. -/
inductive Event where
  | trace (procedure name : String) (key : Option String) (flags : Flags)
  | command (label : String) (words : List Value)
  | deleted (label : String)
  | call (label : String) (args : List View)
  | nested (answer : Answer)
deriving Inhabited, Repr

namespace Scenario

/-- What a step on the bridge gave: an answer and a value, or a failure. -/
inductive Outcome where
  | gave (answer : Answer) (value : HostValue)
  | failed (source : FailureSource) (message : String)
deriving Inhabited

namespace Outcome

/-- Message texts end at this text, which is followed by diagnostics. -/
def cutMark : List Char := "Failed to parse config".toList

/-- The characters up to the end of the first occurrence of the mark. -/
def cutAfter (mark : List Char) : List Char → List Char
  | [] => []
  | c :: r => if mark.isPrefixOf (c :: r) then mark else c :: cutAfter mark r

/-- A message without the diagnostics in it. -/
def cut (message : String) : String :=
  String.ofList (cutAfter cutMark message.toList)

/-- The answer of a step. -/
def answer : Outcome → Answer
  | .gave answer _ => answer
  | .failed source message => .failure source (cut message)

/-- The value of a step. -/
def value : Outcome → HostValue
  | .gave _ value => value
  | .failed _ _ => .nil

end Outcome
end Scenario
end CommandBridge
