/-
# The state of an interpreter

An interpreter has commands, variables, a result register and the counters that
keep it in bounds: the nesting depth of invocations, the accesses whose traces
are firing, and the number of users that keep it from being taken down.  A
deleted interpreter is disposed of as soon as nobody uses it.
-/

import CommandBridge.Bytes.Encoding
import CommandBridge.Interpreter.Variables

namespace CommandBridge

/-- The commands that every interpreter has. -/
inductive Builtin where
  | append
  | array
  | catch
  | concat
  | encoding
  | error
  | eval
  | incr
  | info
  | join
  | lappend
  | lindex
  | list
  | llength
  | puts
  | rename
  | return
  | set
  | string
  | unset
deriving DecidableEq, Repr, Inhabited

namespace Builtin

/-- All built-in commands with their names. -/
def named : List (String × Builtin) :=
  [("append", .append), ("array", .array), ("catch", .catch), ("concat", .concat),
    ("encoding", .encoding), ("error", .error), ("eval", .eval), ("incr", .incr),
    ("info", .info), ("join", .join), ("lappend", .lappend), ("lindex", .lindex),
    ("list", .list), ("llength", .llength), ("puts", .puts), ("rename", .rename),
    ("return", .return), ("set", .set), ("string", .string), ("unset", .unset)]

theorem mem_named (b : Builtin) : ∃ name, (name, b) ∈ named := by
  cases b <;> exact ⟨_, by simp [named]; rfl⟩

end Builtin

/-- What runs when a command is invoked. -/
inductive Procedure where
  | builtin (command : Builtin)
  /-- Calls the host global that the first argument names. -/
  | callGlobal
  /-- Calls the function that the handle keeps under the key. -/
  | callRegistered (handle : Nat) (key : String)
  /-- Logs the invocation, runs steps, sets the result if there is one and ends
  with the status. -/
  | scripted (label : String) (body : List InterpreterStep) (result : Option Value)
      (status : Status)
deriving Inhabited

/-- What runs when a command is deleted. -/
inductive DeleteAction where
  /-- Drops the function that the handle keeps under the key. -/
  | forget (handle : Nat) (key : String)
  /-- Logs the deletion and runs steps. -/
  | scripted (label : String) (body : List InterpreterStep)

/-- A command. -/
structure Command where
  procedure : Procedure
  onDelete : Option DeleteAction := none
deriving Inhabited

/-- The commands of an interpreter by their names. -/
abbrev Commands := Std.ExtTreeMap String Command

/-- The state of an interpreter. -/
structure Interpreter where
  commands : Commands := ∅
  vars : Variables := ∅
  result : Value := .empty
  /-- The variables and elements whose traces are firing, innermost first. -/
  active : List VarRef := []
  depth : Nat := 0
  maxNesting : Nat := 1
  preserved : Nat := 0
  deleted : Bool := false
  disposed : Bool := false
  systemEncoding : Encoding := .standard

instance : Inhabited Interpreter := ⟨{}⟩

namespace Interpreter

/-- The commands of a new interpreter. -/
def builtinCommands : Commands :=
  Builtin.named.foldl (fun cs p => cs.insert p.1 { procedure := .builtin p.2 }) ∅

/-- A new interpreter; at least one level of nesting is allowed. -/
def new (maxNesting : Nat) : Interpreter :=
  { commands := builtinCommands, maxNesting := max maxNesting 1 }

/-- What a new interpreter has are built-in commands without delete procedures. -/
theorem builtin_of_builtinCommands {name : String} {c : Command}
    (h : builtinCommands[name]? = some c) : ∃ b, c = { procedure := .builtin b } := by
  refine List.foldlRecOn (motive := fun cs : Commands =>
    ∀ c, cs[name]? = some c → ∃ b, c = { procedure := .builtin b }) Builtin.named _ ?_ ?_ c h
  · exact fun c hc => nomatch Std.ExtTreeMap.getElem?_empty.symm.trans hc
  · intro cs hcs p _ c hc
    rw [getElem?_insert_name] at hc
    split at hc
    · exact ⟨p.2, (Option.some.inj hc).symm⟩
    · exact hcs c hc

theorem maxNesting_new_pos (n : Nat) : 0 < (new n).maxNesting := by
  simp only [new]
  omega

def hasCommand (s : Interpreter) (name : String) : Bool :=
  s.commands.contains name

/-- The command names, sorted. -/
def commandNames (s : Interpreter) : List String :=
  s.commands.keys

end Interpreter
end CommandBridge
