/-
# Small scenarios

Sequences of operations on one table, on the words of one command and on the
tables on the way of a conversion, and the answers after each operation.
-/

import CommandBridge.Bridge.Arguments
import CommandBridge.Host.Show
import CommandBridge.Scenario.Literals

namespace CommandBridge
namespace Scenario

/-- An operation on a table. -/
inductive TableOp where
  | set (key value : Literal)
  | get (key : Literal)
  | push (value : Literal)
  /-- Makes a new table under a label. -/
  | new (label : String)
deriving Inhabited

/-- An operation on the table under a label. -/
structure TableStep where
  op : TableOp
  on : String
deriving Inhabited

/-- The answer to an operation on a table, with the table as it is then. -/
structure TableReport where
  result : Except KeyError View
  border : Nat
  empty : Bool
  table : View

/-- The table under a label. -/
def tableUnder (w : World) (label : String) : Nat :=
  match w.labelled label with
  | .table id => id
  | _ => 0

/-- Carries an operation on a table out. -/
def applyTableOp (w : World) (id : Nat) (op : TableOp) : Except KeyError HostValue × World :=
  match op with
  | .set key value =>
    match key.make w with
    | (k, w) =>
      match value.make w with
      | (v, w) =>
        match (w.heap.table id).insert k v with
        | .ok t => (.ok .nil, { w with heap := w.heap.setTable id t })
        | .error e => (.error e, w)
  | .get key =>
    match key.make w with
    | (k, w) => (.ok ((w.heap.table id).lookup k), w)
  | .push value =>
    match value.make w with
    | (v, w) => (.ok .nil, w.modifyTable id (·.push v))
  | .new label =>
    match w.addTable .empty with
    | (id, w) => (.ok .nil, w.setLabel label (.table id))

/-- The answers to operations on tables. -/
def runTableSteps (w : World) : List TableStep → List TableReport
  | [] => []
  | step :: rest =>
    let id := tableUnder w step.on
    match applyTableOp w id step.op with
    | (result, w) =>
      let t := w.heap.table id
      { result := result.map w.heap.view, border := t.border, empty := t.isEmpty,
        table := w.heap.view (.table id) } :: runTableSteps w rest

/-- The label of the table that a small scenario is about. -/
def mainLabel : String := "self"

/-- Operations on a new table of some values. -/
def runTable (init : List Literal) (steps : List TableStep) : List TableReport :=
  match Literal.makeEach {} init with
  | (vs, w) =>
    match w.addTable (.ofValues vs) with
    | (id, w) => runTableSteps (w.setLabel mainLabel (.table id)) steps

/-- The answers to adding values to the words of a command, and all words. -/
def addWords (w : World) (words : List Value) :
    List HostValue → List (Except ConversionError (List Value)) × List Value
  | [] => ([], words)
  | v :: rest =>
    match Bridge.wordsOf w v with
    | .error e =>
      match addWords w words rest with
      | (answers, all) => (.error e :: answers, all)
    | .ok more =>
      match addWords w (words ++ more) rest with
      | (answers, all) => (.ok (words ++ more) :: answers, all)

/-- Adding values to the words of a command one by one. -/
def growCommand (command : String) (values : List Literal) :
    List (Except ConversionError (List Value)) × List Value :=
  match Literal.makeEach {} values with
  | (vs, w) => addWords w (Bridge.commandWords command) vs

/-- An operation on the tables on the way of a conversion. -/
inductive VisitedOp where
  | enter (id : Nat)
  | leave (id : Nat)
  | contains (id : Nat)
deriving Inhabited

/-- What an operation answers, and the tables on the way after it. -/
def applyVisitedOp (s : Visited) : VisitedOp → Option Bool × Visited
  | .enter id => ((s.enter? id).isSome, (s.enter? id).getD s)
  | .leave id => (none, s.leave id)
  | .contains id => (s.contains id, s)

/-- The answers to operations, each with the depth after it. -/
def runVisited (s : Visited) : List VisitedOp → List (Option Bool × Nat)
  | [] => []
  | op :: rest =>
    match applyVisitedOp s op with
    | (answer, s) => (answer, s.depth) :: runVisited s rest

end Scenario
end CommandBridge
