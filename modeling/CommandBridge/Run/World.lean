/-
# The world

A world holds everything that operations can change: the heap of the host, all
interpreters, handles and bundles, the journal of what happened, and the bench
of a scenario with its labels.

What an interpreter has is taken down in no particular order.  A world has an order
for it that may be any (`TakedownOrder`).

A handle owns one interpreter together with the host functions that commands
and traces of the interpreter call.  A bundle holds converted values and keeps
the interpreter it was made for in use until it is torn down.
-/

import CommandBridge.Host.Heap
import CommandBridge.Interpreter.State
import CommandBridge.Scenario.Answer
import CommandBridge.Settings.Basic

namespace CommandBridge

/-- A handle on an interpreter. -/
structure Handle where
  interpreter : Nat := 0
  /-- Host functions by command name or by the client name of a trace. -/
  functions : Std.ExtTreeMap String Nat := ∅
  settings : Settings := {}
  destroyed : Bool := false

instance : Inhabited Handle := ⟨{}⟩

/-- A bundle of arguments; nothing is left of it after the teardown. -/
structure Bundle where
  interpreter : Nat := 0
  values : Option (List Value) := none
deriving Inhabited

namespace Bundle

def isTornDown (b : Bundle) : Bool := b.values.isNone

/-- The values held, none after the teardown. -/
def held (b : Bundle) : List Value := b.values.getD []

end Bundle

/-- What has happened: events, newest first, and the text written to the two
output channels. -/
structure Journal where
  events : List Event := []
  out : String := ""
  err : String := ""
deriving Inhabited

/-- The host is alive while its owner keeps it or a call from an interpreter is
using it. -/
structure HostState where
  globals : Nat := 0
  owned : Bool := true
  borrowed : Nat := 0
deriving Inhabited

def HostState.alive (h : HostState) : Bool := h.owned || 0 < h.borrowed

/-- What a scenario keeps: values under labels, the values that steps and calls
in progress hold, saved results and guards. -/
structure Bench where
  labels : Std.ExtTreeMap String HostValue := ∅
  held : List (List HostValue) := []
  savedResults : List Value := []
  guards : List Nat := []
  library : Nat := 0

instance : Inhabited Bench := ⟨{}⟩

/-- The order in which each interpreter gives up its commands and its variables when it is
disposed of. -/
structure TakedownOrder where
  commands : Nat → List Command → List Command
  vars : Nat → List (String × Variable) → List (String × Variable)
  perm_commands : ∀ i cs, (commands i cs).Perm cs
  perm_vars : ∀ i vs, (vars i vs).Perm vs

/-- Each list in the order of the names. -/
def TakedownOrder.byName : TakedownOrder where
  commands _ cs := cs
  vars _ vs := vs
  perm_commands _ cs := List.Perm.refl cs
  perm_vars _ vs := List.Perm.refl vs

instance : Inhabited TakedownOrder := ⟨.byName⟩

/-- Everything that operations can change, and the order of takedowns. -/
structure World where
  heap : Heap := {}
  interpreters : Pool Interpreter := .empty
  handles : Pool Handle := .empty
  bundles : Pool Bundle := .empty
  host : HostState := {}
  journal : Journal := {}
  bench : Bench := {}
  order : TakedownOrder := .byName

instance : Inhabited World := ⟨{}⟩

namespace World

def interpreter (w : World) (id : Nat) : Interpreter := w.interpreters.get id

def handle (w : World) (id : Nat) : Handle := w.handles.get id

def bundle (w : World) (id : Nat) : Bundle := w.bundles.get id

/-- Changes one interpreter. -/
def withInterpreter (w : World) (id : Nat) (f : Interpreter → Interpreter) : World :=
  { w with interpreters := w.interpreters.put id (f (w.interpreter id)) }

/-- Changes one handle. -/
def withHandle (w : World) (id : Nat) (f : Handle → Handle) : World :=
  { w with handles := w.handles.put id (f (w.handle id)) }

/-- Adds an event to the journal. -/
def log (w : World) (e : Event) : World :=
  { w with journal := { w.journal with events := e :: w.journal.events } }

theorem interpreter_withInterpreter (w : World) (i j : Nat) (f : Interpreter → Interpreter) :
    (w.withInterpreter i f).interpreter j =
      if i = j then f (w.interpreter i) else w.interpreter j :=
  Pool.get_put _ _ _ _

theorem interpreter_withInterpreter_self (w : World) (i : Nat) (f : Interpreter → Interpreter) :
    (w.withInterpreter i f).interpreter i = f (w.interpreter i) := by
  rw [interpreter_withInterpreter, if_pos rfl]

theorem interpreter_congr {w w' : World} (h : w'.interpreters = w.interpreters) (i : Nat) :
    w'.interpreter i = w.interpreter i :=
  congrArg (Pool.get · i) h

end World
end CommandBridge
