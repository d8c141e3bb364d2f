/-
# Operations on live handles

Every operation on a handle first checks that neither the handle nor its
interpreter was taken down (`withLive`), then converts what it was given, and
only then touches the interpreter.
-/

import CommandBridge.Bridge.Arguments
import CommandBridge.Interpreter.Lifetime

namespace CommandBridge
namespace Bridge

variable {α β : Type}

/-- The error of an operation on what was taken down. -/
def deletedError : BridgeError :=
  .eval "attempt to use a deleted interpreter"

/-- The interpreter of a handle, if both are still there. -/
def live? (w : World) (handle : Nat) : Option Nat :=
  let h := w.handle handle
  if h.destroyed || (w.interpreter h.interpreter).deleted then none else some h.interpreter

/-- Goes on with the interpreter of a live handle. -/
def withLive (handle : Nat) (k : Nat → Program (Except BridgeError α)) :
    Program (Except BridgeError α) := do
  match live? (← Program.world) handle with
  | some i => k i
  | none => return .error deletedError

/-- Goes on with what could be converted. -/
def withConverted (f : World → Except ConversionError α)
    (k : α → Program (Except BridgeError β)) : Program (Except BridgeError β) := do
  match f (← Program.world) with
  | .ok a => k a
  | .error e => return .error e.toBridge

/-- A value of an interpreter for the host. -/
def handOver (v : Value) : Program HostValue :=
  Program.update fun w =>
    match Marshal.toHost w.heap v with
    | (x, h) => (x, { w with heap := h })

/-- Values of an interpreter for the host, in order. -/
def handOverEach (vs : List Value) : Program (List HostValue) :=
  Program.update fun w =>
    match Marshal.toHostEach w.heap vs with
    | (xs, h) => (xs, { w with heap := h })

/-- The error that carries the text of the result register. -/
def resultError (i : Nat) : Program (Except BridgeError α) := do
  return .error (.eval (← Interp.result i).str)

/-- Runs a program while values are in use. -/
def holding (vs : List HostValue) (p : Program α) : Program α := do
  Program.modify fun w => { w with bench := { w.bench with held := vs :: w.bench.held } }
  let a ← p
  Program.modify fun w => { w with bench := { w.bench with held := w.bench.held.tail } }
  return a

end Bridge
end CommandBridge
