/-
# Showing host values

The view of a value follows its tables.  Where a table shows up inside itself
the view says how far out it stands, so views are finite.
-/

import CommandBridge.Host.Heap
import CommandBridge.Host.View

namespace CommandBridge

/-- The label of a function; those of the library stand under its name. -/
def HostFunction.label : HostFunction → String
  | .library f => "ltcl." ++ f.name
  | .scripted label _ => label
  | .silent label => label

namespace Heap

/-- The label of the function of a number. -/
def functionLabel (h : Heap) (id : Nat) : String :=
  (h.functions.get id).label

/-- The type name of the object of a number. -/
def objectType (h : Heap) (id : Nat) : String :=
  (h.objects.get id).typeName

mutual

/-- The view of a value inside the tables of a path, innermost first. -/
def viewIn (h : Heap) (path : List Nat) (v : HostValue) : View :=
  match v with
  | .nil => .nil
  | .bool b => .bool b
  | .int i => .int i
  | .number x => .number x
  | .string bs => .string bs
  | .function id => .function (h.functionLabel id)
  | .object id => .object (h.objectType id)
  | .table id =>
    match _hp : path.contains id, _ht : h.tables.get? id with
    | true, _ => .cycle (path.idxOf id + 1)
    | false, none => .table [] []
    | false, some t => .table (viewEachIn h (id :: path) t.array) (viewPairsIn h (id :: path) t.map)
termination_by ((h.unvisited path).length, 0)
decreasing_by
  · exact Prod.Lex.left _ _ (length_unvisited_lt _ht _hp)
  · exact Prod.Lex.left _ _ (length_unvisited_lt _ht _hp)

/-- The views of values. -/
def viewEachIn (h : Heap) (path : List Nat) (vs : List HostValue) : List View :=
  match vs with
  | [] => []
  | v :: r => viewIn h path v :: viewEachIn h path r
termination_by ((h.unvisited path).length, vs.length + 1)

/-- The views of keys with their values. -/
def viewPairsIn (h : Heap) (path : List Nat) (ps : List (Key × HostValue)) : List (View × View) :=
  match ps with
  | [] => []
  | (k, v) :: r => (viewIn h path k.toValue, viewIn h path v) :: viewPairsIn h path r
termination_by ((h.unvisited path).length, ps.length + 1)

end

/-- The view of a value. -/
def view (h : Heap) (v : HostValue) : View :=
  h.viewIn [] v

end Heap
end CommandBridge
