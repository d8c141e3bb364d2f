/-
# Views of host values

A view shows a value as a tree: a table with its two regions, and in place of a
table that encloses the place a count of how far out it is.  Functions and
objects are shown by label and type name.
-/

import CommandBridge.Host.Value

namespace CommandBridge

/-- A host value as it is shown. -/
inductive View where
  | nil
  | bool (b : Bool)
  | int (i : Int64)
  | number (x : Binary64)
  | string (bytes : Bytes)
  | table (items : List View) (pairs : List (View × View))
  | cycle (outward : Nat)
  | function (label : String)
  | object (typeName : String)
deriving Inhabited, Repr

end CommandBridge
