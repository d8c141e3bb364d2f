/-
# Commands on variables

`set`, `unset`, `incr`, `append`, `lappend` and `array`.
-/

import CommandBridge.Builtin.Basic

namespace CommandBridge
namespace Builtin

def runSet (i : Nat) (words : List Value) : Program Status :=
  match words with
  | [_, name] => do answerAccess i (← Interp.read i name.str none .leaveErrorMessage)
  | [_, name, value] => do
    answerAccess i (← Interp.write i name.str none value .leaveErrorMessage)
  | _ => Interp.wrongNumArgs i words 1 "varName ?newValue?"

/-- The options of `unset`: whether a missing variable is an error, and the
names behind the options. -/
def unsetOptions (complain : Bool) : List Value → Bool × List Value
  | [] => (complain, [])
  | w :: r =>
    if w.str == "-nocomplain" then unsetOptions false r
    else if w.str == "--" then (complain, r)
    else (complain, w :: r)

/-- Unsets variables in order, up to the first that is missing if that is an
error. -/
def unsetEach (i : Nat) (complain : Bool) : List Value → Program Status
  | [] => do
    Interp.resetResult i
    return .ok
  | name :: rest => do
    let status ← Interp.unset i name.str none (if complain then .leaveErrorMessage else .none)
    if status ≠ .ok ∧ complain then return .error else unsetEach i complain rest

def runUnset (i : Nat) (words : List Value) : Program Status :=
  let (complain, names) := unsetOptions true words.tail
  unsetEach i complain names

/-- Adds to a variable, starting from zero if it has no value. -/
def increment (i : Nat) (name : String) (step : Int64) : Program Status := do
  if ← Interp.varExists i name none then
    match ← Interp.read i name none .leaveErrorMessage with
    | none => return .error
    | some value =>
      withRead i value.getInt fun current => do
        answerAccess i (← Interp.write i name none (.int (current + step)) .leaveErrorMessage)
  else answerAccess i (← Interp.write i name none (.int (0 + step)) .leaveErrorMessage)

def runIncr (i : Nat) (words : List Value) : Program Status :=
  match words with
  | [_, name] => increment i name.str 1
  | [_, name, step] => withRead i step.getInt (increment i name.str)
  | _ => Interp.wrongNumArgs i words 1 "varName ?increment?"

/-- Appends values to a variable in order; `last` is what the variable held
after the one before. -/
def appendEach (i : Nat) (name : String) (flags : Flags) (last : Option Value) :
    List Value → Program Status
  | [] => answerAccess i last
  | value :: rest => do
    match ← Interp.write i name none value flags with
    | none => return .error
    | some new => appendEach i name flags (some new) rest

/-- The flags of an append. -/
def appendFlags : Flags := Flags.appendValue.union .leaveErrorMessage

/-- The flags of an append as a list element. -/
def elementFlags : Flags := (Flags.appendValue.union .listElement).union .leaveErrorMessage

def runAppend (i : Nat) (words : List Value) : Program Status :=
  match words with
  | [_, name] => do answerAccess i (← Interp.read i name.str none .leaveErrorMessage)
  | _ :: name :: values => appendEach i name.str appendFlags none values
  | _ => Interp.wrongNumArgs i words 1 "varName ?value ...?"

def runLappend (i : Nat) (words : List Value) : Program Status :=
  match words with
  | [_, name] => do
    if ← Interp.varExists i name.str none then
      answerAccess i (← Interp.read i name.str none .leaveErrorMessage)
    else answerAccess i (← Interp.write i name.str none .empty .leaveErrorMessage)
  | _ :: name :: values => appendEach i name.str elementFlags none values
  | _ => Interp.wrongNumArgs i words 1 "varName ?value ...?"

/-- The keys and values of array elements that can be read. -/
def arrayPairs (i : Nat) (name : String) : List String → Program (List Value)
  | [] => return []
  | key :: rest => do
    let value ← Interp.read i name (some key) .none
    let pairs ← arrayPairs i name rest
    match value with
    | some value => return .text key :: value :: pairs
    | none => return pairs

/-- Writes array elements in order. -/
def arrayWrite (i : Nat) (name : String) : List Value → Program Status
  | key :: value :: rest => do
    match ← Interp.write i name (some key.str) value .leaveErrorMessage with
    | none => return .error
    | some _ => arrayWrite i name rest
  | _ => do
    Interp.resetResult i
    return .ok

/-- The subcommands of `array`. -/
def arrayOptions : List String := ["exists", "size", "names", "get", "set", "unset"]

/-- A subcommand of `array` on an array name. -/
def arrayCommand (i : Nat) (option name : String) (args : List Value) : Program Status := do
  let vars := (← Program.interpreter i).vars
  let plain := (VarRef.resolve name none).name
  let keys := vars.keysOf plain
  match option, args with
  | "exists", [] => answer i (.boolean (vars.isArrayName plain))
  | "size", [] => answer i (.int (Int64.ofNat keys.length))
  | "names", [] => answer i (fittingNames none keys)
  | "names", [pattern] => answer i (fittingNames (some pattern) keys)
  | "get", [] => do answer i (.list (← arrayPairs i name keys))
  | "set", [pairs] =>
    withRead i pairs.getList fun pairs =>
      if pairs.length % 2 ≠ 0 then Interp.fail i "list must have an even number of elements"
      else arrayWrite i name pairs
  | "unset", [] => do
    if vars.isArrayName plain then
      let _ ← Interp.unset i name none .none
    Interp.resetResult i
    return .ok
  | option, _ =>
    if arrayOptions.contains option then
      Interp.fail i ("wrong # args: should be \"array " ++ option ++ " arrayName\"")
    else
      Interp.fail i ("bad option \"" ++ option ++
        "\": must be exists, get, names, set, size, or unset")

def runArray (i : Nat) (words : List Value) : Program Status :=
  match words with
  | _ :: option :: name :: args => do
    let plain := (VarRef.resolve name.str none).name
    match ← Interp.fireTraces i ⟨plain, none⟩ .traceArray .none with
    | some message => Interp.fail i ("can't trace \"" ++ plain ++ "\": " ++ message)
    | none => arrayCommand i option.str name.str args
  | _ => Interp.wrongNumArgs i words 1 "option arrayName ?arg ...?"

end Builtin
end CommandBridge
