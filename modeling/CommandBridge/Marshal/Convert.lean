/-
# Conversion between the two sides

| interpreter value | host value |
| --- | --- |
| integer, truth value | integer |
| double | number |
| byte string | string of the bytes |
| list | new table of the elements |
| everything else | string of the text |

| host value | interpreter value |
| --- | --- |
| nil | the empty value |
| truth value, integer | the same |
| number | an integer if it is one bit for bit, a double otherwise |
| string | a text if it is well-formed UTF-8 without a zero byte, a byte string otherwise |
| table | list of the array region |
| function, object | none |

The way to the host cannot fail (`toHost`).  On the way back a table that lies
inside itself is refused; `convert` carries the tables on the way along and
gives back the way that it was given.
-/

import CommandBridge.Bridge.Error
import CommandBridge.Host.Heap
import CommandBridge.Marshal.Visited
import CommandBridge.Value.Access

namespace CommandBridge
namespace Marshal

mutual

/-- A value for the host; a list becomes a new table in the heap. -/
def toHost (h : Heap) : Value → HostValue × Heap
  | .empty => (.ofText "", h)
  | .int i => (.int i, h)
  | .double x => (.number x, h)
  | .boolean b => (.int (if b then 1 else 0), h)
  | .bytes bs => (.string bs, h)
  | .text s => (.ofText s, h)
  | .foreign _ s => (.ofText s, h)
  | .list elements =>
    match toHostEach h elements with
    | (xs, h) => h.addTable (.ofValues xs)

/-- Values for the host, in order. -/
def toHostEach (h : Heap) : List Value → List HostValue × Heap
  | [] => ([], h)
  | v :: r =>
    match toHost h v with
    | (x, h) =>
      match toHostEach h r with
      | (xs, h) => (x :: xs, h)

end

/-- A number is an integer if the integer converts back to the same bits. -/
def ofNumber (x : Binary64) : Value :=
  match x.toInt?.bind Integer.word? with
  | some i => if Binary64.ofInt i.toInt = x then .int i else .double x
  | none => .double x

/-- A string is a text if its bytes allow it. -/
def ofBytes (bs : Bytes) : Value :=
  if Utf8.isLayout bs then
    match Utf8.text? bs with
    | some s => .text s
    | none => .bytes bs
  else .bytes bs

/-- An outcome together with the tables that are on the way afterwards, which are
those from before. -/
abbrev Outcome (seen : Visited) (α : Type) : Type :=
  Except ConversionError α × { s : Visited // s = seen }

mutual

/-- A host value for the interpreter, with the tables on the way to it. -/
def convert (h : Heap) (seen : Visited) (v : HostValue) : Outcome seen Value :=
  match v with
  | .nil => (.ok .empty, ⟨seen, rfl⟩)
  | .bool b => (.ok (.boolean b), ⟨seen, rfl⟩)
  | .int i => (.ok (.int i), ⟨seen, rfl⟩)
  | .number x => (.ok (ofNumber x), ⟨seen, rfl⟩)
  | .string bs => (.ok (ofBytes bs), ⟨seen, rfl⟩)
  | .table id =>
    match _ht : h.tables.get? id, _hs : seen.enter? id with
    | none, _ => (.ok (.list []), ⟨seen, rfl⟩)
    | some _, none => (.error .recursiveTable, ⟨seen, rfl⟩)
    | some t, some inner =>
      match convertEach h inner t.array with
      | (r, s) => (r.map .list, ⟨s.1.leave id, by rw [s.2, Visited.leave_of_enter? _hs]⟩)
  | v => (.error (.noCounterpart v.typeName), ⟨seen, rfl⟩)
termination_by ((h.unvisited seen.ids).length, 0)
decreasing_by
  obtain ⟨hc, hi⟩ := Visited.contains_of_enter? _hs
  rw [hi]
  exact Prod.Lex.left _ _ (Heap.length_unvisited_lt _ht hc)

/-- Host values for the interpreter, in order, up to the first failure. -/
def convertEach (h : Heap) (seen : Visited) (vs : List HostValue) : Outcome seen (List Value) :=
  match vs with
  | [] => (.ok [], ⟨seen, rfl⟩)
  | v :: r =>
    match convert h seen v with
    | (.error e, s) => (.error e, s)
    | (.ok x, ⟨s, hs⟩) =>
      match convertEach h s r with
      | (xs, s') => (xs.map (x :: ·), ⟨s'.1, s'.2.trans hs⟩)
termination_by ((h.unvisited seen.ids).length, vs.length + 1)
decreasing_by
  · exact Prod.Lex.right _ (by simp)
  · subst hs
    exact Prod.Lex.right _ (by simp)

end

/-- A host value for the interpreter. -/
def toTarget (h : Heap) (v : HostValue) : Except ConversionError Value :=
  (convert h {} v).1

/-- Host values for the interpreter, in order, up to the first failure. -/
def toTargets (h : Heap) (vs : List HostValue) : Except ConversionError (List Value) :=
  vs.mapM (toTarget h)

end Marshal
end CommandBridge
