/-
# Letting go of what nobody can reach

A handle is destroyed and a bundle torn down when the last reference to its
object is gone.  References are held by labels, by the globals of a living host,
by the library table and by values in use, and by tables that are held
themselves.  Tables that refer to each other in a circle hold each other, so they
and what they refer to stay.
-/

import CommandBridge.Bridge.Bundles
import CommandBridge.Bridge.Handles
import CommandBridge.Scenario.Literals

namespace CommandBridge

/-- All values that a table refers to, its keys among them. -/
def Table.members (t : Table) : List HostValue :=
  t.array ++ t.map.flatMap fun p => [p.1.toValue, p.2]

/-- Numbers of tables and objects that were reached. -/
structure Reached where
  tables : List Nat := []
  objects : List Nat := []

namespace Heap

/-- What is reached from pending values besides what was reached before. -/
def reach (h : Heap) (r : Reached) (pending : List HostValue) : Reached :=
  match pending with
  | [] => r
  | .object id :: rest => h.reach { r with objects := id :: r.objects } rest
  | .table id :: rest =>
    match _hp : r.tables.contains id, _ht : h.tables.get? id with
    | false, some t => h.reach { r with tables := id :: r.tables } (t.members ++ rest)
    | _, _ => h.reach r rest
  | _ :: rest => h.reach r rest
termination_by ((h.unvisited r.tables).length, pending.length)
decreasing_by
  · exact Prod.Lex.right _ (by simp)
  · exact Prod.Lex.left _ _ (length_unvisited_lt _ht _hp)
  · exact Prod.Lex.right _ (by simp)
  · exact Prod.Lex.right _ (by simp)

/-- Whether a table refers to itself, be it through others. -/
def isCyclic (h : Heap) (id : Nat) : Bool :=
  (h.reach {} (h.table id).members).tables.contains id

/-- The tables that refer to themselves. -/
def cyclic (h : Heap) : List HostValue :=
  (h.tables.entries.keys.filter h.isCyclic).map .table

end Heap

namespace World

/-- What holds references from outside the tables. -/
def roots (w : World) : List HostValue :=
  w.bench.labels.values ++ w.bench.held.flatten ++ [.table w.bench.library] ++
    (if w.host.alive then [.table w.host.globals] else [])

/-- Whether an object is a handle or bundle that is still there. -/
def isLive (w : World) : HostObject → Bool
  | .handle id => !(w.handle id).destroyed
  | .bundle id => !(w.bundle id).isTornDown
  | _ => false

/-- The handles and bundles that are still there and that no root refers to
directly. -/
def candidates (w : World) : List (Nat × HostObject) :=
  w.heap.objects.entries.toList.filter fun p =>
    w.isLive p.2 && !w.roots.contains (.object p.1)

/-- The handles and bundles that are still there and cannot be reached. -/
def unreachable (w : World) : List HostObject :=
  match w.candidates with
  | [] => []
  | cs =>
    let reached := (w.heap.reach {} (w.roots ++ w.heap.cyclic)).objects
    (cs.filter fun p => !reached.contains p.1).map (·.2)

end World

namespace Scenario

/-- Lets go of an object. -/
def letGo : HostObject → Program Unit
  | .handle id => Bridge.destroy id
  | .bundle id => Bridge.teardown id
  | _ => return ()

/-- Lets go of everything that cannot be reached. -/
def collect : Program Unit := do
  Program.each letGo (← Program.world).unreachable

end Scenario
end CommandBridge
