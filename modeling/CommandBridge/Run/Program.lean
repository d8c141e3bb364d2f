/-
# Programs

Whatever may call back into an interpreter or the host is a program: it reads
and replaces the world, and it makes calls.  A call stands for a whole
operation, with the type of its reply; what a call does is settled elsewhere, so
operations that lead into each other are written one by one and without
recursion.  An overflow of integers is the end of everything: a program at an
overflow does nothing any more, and neither do those that wait for it.
-/

import CommandBridge.Run.World

namespace CommandBridge

/-- The operations that can lead into each other. -/
inductive Call where
  /-- Evaluates a script. -/
  | eval (interp : Nat) (script : String)
  /-- Invokes a command at top level. -/
  | evalWords (interp : Nat) (words : List Value)
  /-- Invokes a command. -/
  | invoke (interp : Nat) (words : List Value)
  /-- Fires one trace, with those that are to be fired after it. -/
  | fire (interp : Nat) (trace : Trace) (ref : VarRef) (flags : Flags) (later : List Firing)
  /-- Runs the delete procedure of a command. -/
  | deleted (interp : Nat) (action : DeleteAction)
  /-- Calls a host value. -/
  | host (function : HostValue) (args : List HostValue)
  /-- Runs a step of an interpreter scenario. -/
  | interpreterStep (interp : Nat) (step : InterpreterStep)
  /-- Runs a step of a bridge scenario. -/
  | bridgeStep (step : BridgeStep)

/-- The reply to a call.  The reply to a bridge step is its answer and its
value. -/
def Call.Reply : Call → Type
  | .eval .. => Status
  | .evalWords .. => Status
  | .invoke .. => Status
  | .fire .. => Option String
  | .deleted .. => Unit
  | .host .. => Except HostError (List HostValue)
  | .interpreterStep .. => Answer
  | .bridgeStep .. => Scenario.Outcome

/-- A computation on the world that may make calls. -/
inductive Program (α : Type) : Type where
  | done (a : α)
  | get (k : World → Program α)
  | set (w : World) (p : Program α)
  | call (c : Call) (k : c.Reply → Program α)
  | overflow (cause : Integer.Overflow)

namespace Program

variable {α β γ : Type}

/-- Runs a program and then another one on its result. -/
def bind : Program α → (α → Program β) → Program β
  | .done a, f => f a
  | .get k, f => .get fun w => (k w).bind f
  | .set w p, f => .set w (p.bind f)
  | .call c k, f => .call c fun r => (k r).bind f
  | .overflow cause, _ => .overflow cause

instance : Monad Program where
  pure := .done
  bind := .bind

theorem bind_done (p : Program α) : p.bind .done = p := by
  induction p with
  | done a => rfl
  | get k ih => simp only [bind, ih]
  | set w p ih => simp only [bind, ih]
  | call c k ih => simp only [bind, ih]
  | overflow cause => rfl

theorem bind_bind (p : Program α) (f : α → Program β) (g : β → Program γ) :
    (p.bind f).bind g = p.bind fun a => (f a).bind g := by
  induction p with
  | done a => rfl
  | get k ih => simp only [bind, ih]
  | set w p ih => simp only [bind, ih]
  | call c k ih => simp only [bind, ih]
  | overflow cause => rfl

instance : LawfulMonad Program :=
  LawfulMonad.mk' Program bind_done (fun _ _ => rfl) bind_bind

/-- The world as it is. -/
def world : Program World := .get .done

/-- Replaces the world by a function of it. -/
def modify (f : World → World) : Program Unit := .get fun w => .set (f w) (.done ())

/-- What a function reads off the world. -/
def reading (f : World → α) : Program α := .get fun w => .done (f w)

/-- Replaces the world and returns a result. -/
def update (f : World → α × World) : Program α := .get fun w => .set (f w).2 (.done (f w).1)

/-- Makes a call. -/
def request (c : Call) : Program c.Reply := .call c .done

/-- Evaluates a script. -/
def eval (i : Nat) (script : String) : Program Status := request (.eval i script)

/-- Invokes a command. -/
def invoke (i : Nat) (words : List Value) : Program Status := request (.invoke i words)

/-- Calls a host value. -/
def callHost (f : HostValue) (args : List HostValue) :
    Program (Except HostError (List HostValue)) :=
  request (.host f args)

/-- An interpreter. -/
def interpreter (i : Nat) : Program Interpreter := reading (·.interpreter i)

/-- Changes an interpreter. -/
def modifyInterpreter (i : Nat) (f : Interpreter → Interpreter) : Program Unit :=
  modify (·.withInterpreter i f)

/-- Logs an event. -/
def log (e : Event) : Program Unit := modify (·.log e)

/-- Runs a program for each member of a list. -/
def each (f : α → Program Unit) : List α → Program Unit
  | [] => .done ()
  | a :: r => (f a).bind fun _ => each f r

/-- Runs a program for each member of a list and what is behind it. -/
def eachWithRest (f : α → List α → Program Unit) : List α → Program Unit
  | [] => .done ()
  | a :: r => (f a r).bind fun _ => eachWithRest f r

end Program
end CommandBridge
