/-
# From descriptions to host values

Making what a literal describes allocates its tables, functions and objects and
sets its labels.  A label that nothing was put under refers to nil.
-/

import CommandBridge.Run.World

namespace CommandBridge

namespace World

/-- The value under a label. -/
def labelled (w : World) (label : String) : HostValue :=
  (w.bench.labels[label]?).getD .nil

/-- Puts a value under a label. -/
def setLabel (w : World) (label : String) (v : HostValue) : World :=
  { w with bench := { w.bench with labels := w.bench.labels.insert label v } }

/-- Forgets a label. -/
def dropLabel (w : World) (label : String) : World :=
  { w with bench := { w.bench with labels := w.bench.labels.erase label } }

/-- Puts a value under a label, if there is one. -/
def setLabel? (w : World) (label : Option String) (v : HostValue) : World :=
  match label with
  | some label => w.setLabel label v
  | none => w

/-- A new table. -/
def addTable (w : World) (t : Table) : Nat × World :=
  (w.heap.tables.next, { w with heap := (w.heap.addTable t).2 })

/-- A new function. -/
def addFunction (w : World) (f : HostFunction) : HostValue × World :=
  match w.heap.addFunction f with
  | (v, h) => (v, { w with heap := h })

/-- A new object. -/
def addObject (w : World) (o : HostObject) : HostValue × World :=
  match w.heap.addObject o with
  | (v, h) => (v, { w with heap := h })

/-- Changes a table. -/
def modifyTable (w : World) (id : Nat) (f : Table → Table) : World :=
  { w with heap := w.heap.setTable id (f (w.heap.table id)) }

/-- Writes into a table; what is no key is not written. -/
def setEntry (w : World) (id : Nat) (k v : HostValue) : World :=
  w.modifyTable id fun t => (t.insert k v).toOption.getD t

end World

namespace Literal

mutual

/-- Makes the value that a literal describes. -/
def make (w : World) : Literal → HostValue × World
  | .nil => (.nil, w)
  | .bool b => (.bool b, w)
  | .int i => (.int i, w)
  | .number x => (.number x, w)
  | .string bs => (.string bs, w)
  | .ref label => (w.labelled label, w)
  | .function label => w.addFunction (.silent label)
  | .thing => w.addObject .thing
  | .table items pairs label =>
    match w.addTable .empty with
    | (id, w) => (.table id, fill id (append id (w.setLabel? label (.table id)) items) pairs)

/-- Pushes values onto a table. -/
def append (id : Nat) (w : World) : List Literal → World
  | [] => w
  | l :: r =>
    match make w l with
    | (v, w) => append id (w.modifyTable id (·.push v)) r

/-- Writes pairs into a table. -/
def fill (id : Nat) (w : World) : List (Literal × Literal) → World
  | [] => w
  | (k, v) :: r =>
    match make w k with
    | (k, w) =>
      match make w v with
      | (v, w) => fill id (w.setEntry id k v) r

end

/-- Makes values in order. -/
def makeEach (w : World) : List Literal → List HostValue × World
  | [] => ([], w)
  | l :: r =>
    match make w l with
    | (v, w) =>
      match makeEach w r with
      | (vs, w) => (v :: vs, w)

end Literal
end CommandBridge
