/-
# The heap of the host

Tables, functions and objects are numbered in the order of their creation.  A
`Pool` keeps what the numbers stand for; a number that was never given out
stands for the default.
-/

import CommandBridge.Host.Behaviour
import CommandBridge.Host.Table
import Std.Data.ExtTreeMap

namespace CommandBridge

/-- Numbered entries; only numbers that were given out stand for something. -/
structure Pool (α : Type) where
  entries : Std.ExtTreeMap Nat α
  next : Nat
  lt_next : ∀ id ∈ entries, id < next

namespace Pool

variable {α : Type}

/-- No number has been given out. -/
def empty : Pool α :=
  ⟨∅, 0, fun _ h => absurd h Std.ExtTreeMap.not_mem_empty⟩

instance : Inhabited (Pool α) := ⟨empty⟩

/-- What a number stands for. -/
def get? (p : Pool α) (id : Nat) : Option α :=
  p.entries[id]?

/-- What a number stands for, or the default. -/
def get [Inhabited α] (p : Pool α) (id : Nat) : α :=
  (p.get? id).getD default

/-- Lets a number stand for something else. -/
def put (p : Pool α) (id : Nat) (a : α) : Pool α :=
  { entries := p.entries.insert id a
    next := max p.next (id + 1)
    lt_next := fun _ h =>
      match Std.ExtTreeMap.mem_insert.1 h with
      | .inl h => Std.LawfulEqCmp.compare_eq_iff_eq.1 h ▸ Nat.le_max_right _ _
      | .inr h => Nat.lt_of_lt_of_le (p.lt_next _ h) (Nat.le_max_left _ _) }

/-- Gives out the next number. -/
def add (p : Pool α) (a : α) : Pool α :=
  { entries := p.entries.insert p.next a
    next := p.next + 1
    lt_next := fun _ h =>
      match Std.ExtTreeMap.mem_insert.1 h with
      | .inl h => Std.LawfulEqCmp.compare_eq_iff_eq.1 h ▸ Nat.lt_succ_self _
      | .inr h => Nat.lt_succ_of_lt (p.lt_next _ h) }

theorem get?_put (p : Pool α) (i j : Nat) (a : α) :
    (p.put i a).get? j = if i = j then some a else p.get? j := by
  simp only [get?, put, Std.ExtTreeMap.getElem?_insert]
  by_cases h : i = j
  · simp [h]
  · simp [h]

theorem get?_add (p : Pool α) (a : α) (j : Nat) :
    (p.add a).get? j = if p.next = j then some a else p.get? j := by
  simp only [get?, add, Std.ExtTreeMap.getElem?_insert]
  by_cases h : p.next = j
  · simp [h]
  · simp [h]

/-- A number that is to be given out next stands for nothing yet. -/
theorem get?_of_next_le {p : Pool α} {id : Nat} (h : p.next ≤ id) : p.get? id = none := by
  refine Std.ExtTreeMap.getElem?_eq_none fun hm => ?_
  have := p.lt_next id hm
  omega

/-- Of two entries put under one number the second stays. -/
theorem put_put (p : Pool α) (i : Nat) (a b : α) : (p.put i a).put i b = p.put i b := by
  simp only [put, mk.injEq]
  refine ⟨Std.ExtTreeMap.ext_getElem? fun j => ?_, by omega⟩
  simp only [Std.ExtTreeMap.getElem?_insert]
  split <;> rfl

theorem get_put [Inhabited α] (p : Pool α) (i j : Nat) (a : α) :
    (p.put i a).get j = if i = j then a else p.get j := by
  rw [get, get?_put]
  split <;> rfl

theorem get_add_next [Inhabited α] (p : Pool α) (a : α) : (p.add a).get p.next = a := by
  rw [get, get?_add, if_pos rfl, Option.getD_some]

end Pool

/-- The functions that the library offers to the host. -/
inductive LibraryFunction where
  | new
  | eval
  | call
  | callt
  | makearglist
  | getvar
  | getarray
  | setvar
  | setarray
  | unsetvar
  | unsetarray
  | tracevar
  | untracevar
  | register
  | unregister
  | fromutf8
  | toutf8
  | getencs
  | vals
  | checkflags
  | tostring
deriving DecidableEq, Repr, Inhabited

namespace LibraryFunction

/-- The library functions with their names, in the order of the library table. -/
def named : List (String × LibraryFunction) :=
  [("new", .new), ("eval", .eval), ("call", .call), ("callt", .callt),
    ("makearglist", .makearglist), ("getvar", .getvar), ("getarray", .getarray),
    ("setvar", .setvar), ("setarray", .setarray), ("unsetvar", .unsetvar),
    ("unsetarray", .unsetarray), ("tracevar", .tracevar), ("untracevar", .untracevar),
    ("register", .register), ("unregister", .unregister), ("fromutf8", .fromutf8),
    ("toutf8", .toutf8), ("getencs", .getencs), ("vals", .vals), ("checkflags", .checkflags),
    ("tostring", .tostring)]

/-- The name of a function. -/
def name (f : LibraryFunction) : String :=
  ((named.find? (·.2 == f)).map (·.1)).getD ""

theorem mem_named (f : LibraryFunction) : (f.name, f) ∈ named := by
  cases f <;> decide

end LibraryFunction

/-- A function of the host. -/
inductive HostFunction where
  | library (function : LibraryFunction)
  /-- Logs the call under a label and does what the arguments make it do. -/
  | scripted (label : String) (behave : List HostValue → Behaviour)
  /-- Returns no values. -/
  | silent (label : String)
deriving Inhabited

/-- An object of the host. -/
inductive HostObject where
  | thing
  | handle (id : Nat)
  | bundle (id : Nat)
  | engine (interpreter : Nat)
deriving DecidableEq, Inhabited, Repr

/-- The type name of an object. -/
def HostObject.typeName : HostObject → String
  | .thing => "thing"
  | .handle _ => "ltcl.Interp"
  | .bundle _ => "ltcl.Vals"
  | .engine _ => "engine"

/-- Everything that host values refer to. -/
structure Heap where
  tables : Pool Table := .empty
  functions : Pool HostFunction := .empty
  objects : Pool HostObject := .empty
deriving Inhabited

namespace Heap

/-- The table of a number, empty if there is none. -/
def table (h : Heap) (id : Nat) : Table :=
  h.tables.get id

def setTable (h : Heap) (id : Nat) (t : Table) : Heap :=
  { h with tables := h.tables.put id t }

/-- A new table. -/
def addTable (h : Heap) (t : Table) : HostValue × Heap :=
  (.table h.tables.next, { h with tables := h.tables.add t })

/-- A new function. -/
def addFunction (h : Heap) (f : HostFunction) : HostValue × Heap :=
  (.function h.functions.next, { h with functions := h.functions.add f })

/-- A new object. -/
def addObject (h : Heap) (o : HostObject) : HostValue × Heap :=
  (.object h.objects.next, { h with objects := h.objects.add o })

/-- The object that a value is. -/
def object? (h : Heap) : HostValue → Option HostObject
  | .object id => h.objects.get? id
  | _ => none

/-- The tables that are not on a path. -/
def unvisited (h : Heap) (path : List Nat) : List Nat :=
  h.tables.entries.keys.filter fun id => !path.contains id

theorem length_unvisited_lt {h : Heap} {path : List Nat} {id : Nat} {t : Table}
    (ht : h.tables.get? id = some t) (hp : path.contains id = false) :
    (h.unvisited (id :: path)).length < (h.unvisited path).length := by
  have hk : id ∈ h.tables.entries.keys := by
    rw [Std.ExtTreeMap.mem_keys]
    exact Std.ExtTreeMap.mem_iff_isSome_getElem?.2 (by rw [Pool.get?] at ht; simp [ht])
  have hsub : h.unvisited (id :: path) = (h.unvisited path).filter (· != id) := by
    simp only [unvisited, List.filter_filter]
    congr 1
    funext x
    simp only [List.contains_cons, Bool.not_or]
    rw [bne]
  rw [hsub]
  refine List.length_filter_lt_length_iff_exists.2 ⟨id, ?_, by simp⟩
  simp only [unvisited, List.mem_filter]
  exact ⟨hk, by rw [hp]; rfl⟩

end Heap
end CommandBridge
