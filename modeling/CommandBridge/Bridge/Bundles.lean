/-
# Bundles of arguments

A bundle is built of at least one value, and only if all of them convert.  It
preserves its interpreter until it is torn down, which happens once.
-/

import CommandBridge.Bridge.Basic

namespace CommandBridge
namespace Bridge

/-- A new object of the host. -/
def newObject (o : HostObject) : Program HostValue :=
  Program.update fun w =>
    match w.heap.addObject o with
    | (x, h) => (x, { w with heap := h })

/-- The error of a bundle without values. -/
def emptyBundleError : BridgeError :=
  .argument "vals" 2 "not enough arguments"

/-- A new bundle of converted values, without the use of the interpreter that it
stands for. -/
def addBundle (i : Nat) (values : List Value) : Program Nat :=
  Program.update fun w =>
    (w.bundles.next, { w with bundles := w.bundles.add { interpreter := i, values := some values } })

/-- Builds a bundle for an interpreter. -/
def buildBundle (i : Nat) (values : List HostValue) : Program (Except BridgeError HostValue) :=
  if values.isEmpty then return .error emptyBundleError
  else
    withConverted (fun w => Marshal.toTargets w.heap values) fun converted => do
      let id ← addBundle i converted
      Interp.preserve i
      return .ok (← newObject (.bundle id))

/-- Takes the values out of a bundle; the interpreter comes back if there were
any. -/
def emptyBundle (id : Nat) : Program (Option Nat) :=
  Program.update fun w =>
    let b := w.bundle id
    if b.isTornDown then (none, w)
    else (some b.interpreter, { w with bundles := w.bundles.put id { b with values := none } })

/-- Tears a bundle down, unless that was done before. -/
def teardown (id : Nat) : Program Unit := do
  match ← emptyBundle id with
  | some i => Interp.release i
  | none => return ()

end Bridge
end CommandBridge
