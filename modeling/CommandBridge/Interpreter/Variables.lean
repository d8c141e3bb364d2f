/-
# The variable table

A variable is undefined, a scalar or an array.  An undefined variable is there
for its traces only.  The elements of an array have a value or traces or both.

A variable or element is named by a `VarRef`.  `VarRef.resolve` makes it of what
is written: a pair of colons in front is dropped, and a name that ends in a
parenthesis is split at the first open one unless a key is given apart.

Nothing here runs a trace: `detach` gives back the traces that an unset has to
fire.
-/

import CommandBridge.Scenario.Step
import CommandBridge.Text.Blank
import CommandBridge.Word.Quote
import Std.Data.ExtTreeMap

namespace CommandBridge

/-- What a trace does when it fires. -/
inductive TraceAction where
  /-- Logs its name, runs steps and answers with a fixed message. -/
  | scripted (procedure : String) (body : List InterpreterStep) (veto : Option String)
  /-- Calls the function that the handle keeps under the client name. -/
  | callback (handle : Nat)

/-- A trace on a variable or an element. -/
structure Trace where
  flags : Flags
  client : String
  action : TraceAction

/-- A variable, or an element of an array. -/
structure VarRef where
  name : String
  key : Option String
deriving DecidableEq, Repr, Inhabited

namespace VarRef

/-- The last character taken off, if it is a closing parenthesis. -/
def dropParenthesis? (cs : List Char) : Option (List Char) :=
  if cs.getLast? = some ')' then some cs.dropLast else none

/-- A written name split into name and key at its first open parenthesis, if it
ends in a closing one. -/
def splitKey? (cs : List Char) : Option (List Char × List Char) :=
  let name := cs.takeWhile (· != '(')
  match cs.dropWhile (· != '(') with
  | [] => none
  | _ :: behind => (dropParenthesis? behind).map fun key => (name, key)

/-- What a written name and an optional key refer to. -/
def resolve (name : String) (key : Option String) : VarRef :=
  let plain := (Text.dropMarker? "::" name).getD name
  match key with
  | some key => ⟨plain, some key⟩
  | none =>
    match splitKey? plain.toList with
    | some (name, key) => ⟨String.ofList name, some (String.ofList key)⟩
    | none => ⟨plain, none⟩

/-- The way a reference is shown in messages. -/
def shown (r : VarRef) : String :=
  match r.key with
  | some key => r.name ++ "(" ++ key ++ ")"
  | none => r.name

end VarRef

/-- What a variable holds. -/
inductive Content where
  | undefined
  | scalar (value : Value)
  | array
deriving Inhabited

/-- An element of an array. -/
structure Element where
  value : Option Value := none
  traces : List Trace := []
deriving Inhabited

/-- A variable. -/
structure Variable where
  content : Content := .undefined
  traces : List Trace := []
  elements : Std.ExtTreeMap String Element := ∅

instance : Inhabited Variable := ⟨{}⟩

namespace Variable

/-- Whether nothing is left of the variable. -/
def isVacant (v : Variable) : Bool :=
  match v.content with
  | .undefined => v.traces.isEmpty && v.elements.isEmpty
  | _ => false

def isArray (v : Variable) : Bool :=
  match v.content with
  | .array => true
  | _ => false

end Variable

/-- Why a variable cannot be read, written, unset or traced. -/
inductive VarError where
  | noSuchVariable
  | noSuchElement
  | isArray
  | notArray
deriving DecidableEq, Repr

/-- The wording of the errors. -/
def VarError.message : VarError → String
  | .noSuchVariable => "no such variable"
  | .noSuchElement => "no such element in array"
  | .isArray => "variable is array"
  | .notArray => "variable isn't array"

/-- A trace that is to be fired, the variable or element that it is told and the flags. -/
structure Firing where
  trace : Trace
  ref : VarRef
  flags : Flags

/-- The traces to fire for one variable or element that is unset; `destroyed` if
they are no longer installed. -/
structure UnsetGroup where
  key : Option String
  traces : List Trace
  destroyed : Bool

section Tables

variable {α : Type} (m : Std.ExtTreeMap String α) (name name' : String)

/-- A name entered into a table stands for what was entered. -/
theorem getElem?_insert_name (a : α) :
    (m.insert name a)[name']? = if name = name' then some a else m[name']? := by
  simp only [Std.ExtTreeMap.getElem?_insert, Std.LawfulEqCmp.compare_eq_iff_eq]

/-- A name struck off a table stands for nothing. -/
theorem getElem?_erase_name :
    (m.erase name)[name']? = if name = name' then none else m[name']? := by
  simp only [Std.ExtTreeMap.getElem?_erase, Std.LawfulEqCmp.compare_eq_iff_eq]

variable {m name}

/-- Entering what is there changes nothing. -/
theorem insert_of_getElem? {a : α} (h : m[name]? = some a) : m.insert name a = m := by
  refine Std.ExtTreeMap.ext_getElem? fun n => ?_
  rw [getElem?_insert_name]
  split
  · subst n
    exact h.symm
  · rfl

/-- Striking off what is not there changes nothing. -/
theorem erase_of_getElem? (h : m[name]? = none) : m.erase name = m := by
  refine Std.ExtTreeMap.ext_getElem? fun n => ?_
  rw [getElem?_erase_name]
  split
  · subst n
    exact h.symm
  · rfl

/-- Of two entries under one name the second stays. -/
theorem insert_insert (a b : α) : (m.insert name a).insert name b = m.insert name b := by
  refine Std.ExtTreeMap.ext_getElem? fun n => ?_
  simp only [getElem?_insert_name]
  split <;> rfl

/-- Nothing is left of an entry that is struck off. -/
theorem erase_insert (a : α) : (m.insert name a).erase name = m.erase name := by
  refine Std.ExtTreeMap.ext_getElem? fun n => ?_
  rw [getElem?_erase_name, getElem?_erase_name, getElem?_insert_name]
  split <;> rfl

end Tables

/-- The variables of an interpreter by their names. -/
abbrev Variables := Std.ExtTreeMap String Variable

namespace Variables

/-- The value of a variable or element. -/
def read (vs : Variables) (r : VarRef) : Except VarError Value :=
  match vs[r.name]? with
  | none => .error .noSuchVariable
  | some v =>
    match v.content, r.key with
    | .scalar value, none => .ok value
    | .scalar _, some _ => .error .notArray
    | .array, none => .error .isArray
    | .array, some key =>
      match (v.elements[key]?).bind (·.value) with
      | some value => .ok value
      | none => .error .noSuchElement
    | .undefined, _ => .error .noSuchVariable

/-- Whether a variable or element has a value. -/
def defined (vs : Variables) (r : VarRef) : Bool :=
  match vs.read r with
  | .ok _ => true
  | .error _ => false

/-- What is stored when `value` is written over `old`: the value itself, or the
old text with the value's text behind it, quoted as a list element if the flags
ask for it. -/
def combine (old : Option Value) (value : Value) (flags : Flags) : Value :=
  let asElement := flags.contains .listElement
  let append := flags.contains .appendValue
  if !asElement && !append then value
  else
    let before := if append then (old.map Value.str).getD "" else ""
    if asElement then
      .text (before ++ (if before.isEmpty then "" else " ") ++ Word.quoteText value.str)
    else .text (before ++ value.str)

/-- Writes a variable or element; the new value comes back with the table. -/
def store (vs : Variables) (r : VarRef) (value : Value) (flags : Flags) :
    Except VarError (Value × Variables) :=
  let v := vs[r.name]?.getD {}
  match r.key, v.content with
  | none, .array => .error .isArray
  | none, .scalar old =>
    let new := combine (some old) value flags
    .ok (new, vs.insert r.name { v with content := .scalar new })
  | none, .undefined =>
    let new := combine none value flags
    .ok (new, vs.insert r.name { v with content := .scalar new })
  | some _, .scalar _ => .error .notArray
  | some key, _ =>
    let e := v.elements[key]?.getD {}
    let new := combine e.value value flags
    .ok (new, vs.insert r.name
      { v with content := .array, elements := v.elements.insert key { e with value := some new } })

/-- The traces of a whole variable: those of its elements in the order of the
keys, then its own. -/
def wholeGroups (v : Variable) : List UnsetGroup :=
  (v.elements.toList.filter fun p => p.2.value.isSome || !p.2.traces.isEmpty).map
      (fun p => { key := some p.1, traces := p.2.traces, destroyed := true }) ++
    [{ key := none, traces := v.traces, destroyed := true }]

/-- Takes a variable or element out of the table, with the traces to fire.  An
element fires the traces of its array too, which stay installed. -/
def detach (vs : Variables) (r : VarRef) : Except VarError (List UnsetGroup × Variables) :=
  match vs[r.name]? with
  | none => .error .noSuchVariable
  | some v =>
    match v.content, r.key with
    | .undefined, _ => .error .noSuchVariable
    | .scalar _, some _ => .error .notArray
    | .array, some key =>
      match v.elements[key]? with
      | some ⟨some _, traces⟩ =>
        .ok ([{ key := some key, traces := v.traces, destroyed := false },
            { key := some key, traces := traces, destroyed := true }],
          vs.insert r.name { v with elements := v.elements.erase key })
      | _ => .error .noSuchElement
    | _, none => .ok (wholeGroups v, vs.erase r.name)

/-- Installs a trace in front of the others.  A trace on an element makes an
undefined variable an array. -/
def addTrace (vs : Variables) (r : VarRef) (t : Trace) : Except VarError Variables :=
  let v := vs[r.name]?.getD {}
  match r.key, v.content with
  | none, _ => .ok (vs.insert r.name { v with traces := t :: v.traces })
  | some _, .scalar _ => .error .notArray
  | some key, _ =>
    let e := v.elements[key]?.getD {}
    .ok (vs.insert r.name
      { v with
        content := .array
        elements := v.elements.insert key { e with traces := t :: e.traces } })

/-- The bits by which a trace is found again. -/
def traceMask : Flags := Flags.traceOps.union .traceResultDynamic

/-- Whether a trace belongs to a client and was installed for these
operations. -/
def isTraceOf (client : String) (flags : Flags) (t : Trace) : Bool :=
  t.client == client && t.flags.inter traceMask == flags.inter traceMask

/-- Puts a variable back, or drops it if nothing is left of it. -/
def settle (vs : Variables) (name : String) (v : Variable) : Variables :=
  if v.isVacant then vs.erase name else vs.insert name v

/-- Removes the first trace of a client for these operations; tells whether
there was one. -/
def removeTrace (vs : Variables) (r : VarRef) (flags : Flags) (client : String) :
    Bool × Variables :=
  match vs[r.name]? with
  | none => (false, vs)
  | some v =>
    match r.key with
    | none =>
      (v.traces.any (isTraceOf client flags),
        vs.settle r.name { v with traces := v.traces.eraseP (isTraceOf client flags) })
    | some key =>
      match v.elements[key]? with
      | none => (false, vs)
      | some e =>
        if e.traces.any (isTraceOf client flags) then
          let left := e.traces.eraseP (isTraceOf client flags)
          let elements :=
            if e.value.isNone && left.isEmpty then v.elements.erase key
            else v.elements.insert key { e with traces := left }
          (true, vs.settle r.name { v with elements := elements })
        else (false, vs.settle r.name v)

/-- The traces on a variable or element, newest first. -/
def tracesOn (vs : Variables) (r : VarRef) : List Trace :=
  match vs[r.name]? with
  | none => []
  | some v =>
    match r.key with
    | none => v.traces
    | some key => ((v.elements[key]?).map (·.traces)).getD []

/-- The traces that an access has to fire: those of the variable, then those of
the element. -/
def tracesFor (vs : Variables) (r : VarRef) (op : Flags) : List Trace :=
  match vs[r.name]? with
  | none => []
  | some v =>
    let own := match r.key with
      | none => []
      | some key => ((v.elements[key]?).map (·.traces)).getD []
    (v.traces ++ own).filter (·.flags.intersects op)

/-- All traces of a variable and its elements. -/
def allTraces (v : Variable) : List Trace :=
  v.traces ++ v.elements.toList.flatMap (·.2.traces)

/-- How many traces a client has anywhere. -/
def clientCount (vs : Variables) (client : String) : Nat :=
  ((vs.toList.flatMap fun p => allTraces p.2).filter (·.client == client)).length

/-- Whether a name is that of an array. -/
def isArrayName (vs : Variables) (name : String) : Bool :=
  ((vs[name]?).map (·.isArray)).getD false

/-- The keys of an array that have a value, sorted. -/
def keysOf (vs : Variables) (name : String) : List String :=
  match vs[name]? with
  | none => []
  | some v => (v.elements.toList.filter (·.2.value.isSome)).map (·.1)

end Variables
end CommandBridge
