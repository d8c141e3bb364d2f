/-
# Commands on scripts and commands

`catch`, `error`, `eval`, `info`, `rename` and `return`.
-/

import CommandBridge.Builtin.Lists

namespace CommandBridge
namespace Builtin

def runCatch (i : Nat) (words : List Value) : Program Status :=
  let code (status : Status) : Value := .int (Int64.ofNat status.code)
  match words with
  | [_, script] => do answer i (code (← Program.eval i script.str))
  | [_, script, name] => do
    let status ← Program.eval i script.str
    match ← Interp.write i name.str none (← Interp.result i) .leaveErrorMessage with
    | none => Interp.fail i "couldn't save command result in variable"
    | some _ => answer i (code status)
  | _ => Interp.wrongNumArgs i words 1 "script ?resultVarName?"

/-- Writes a global variable and ignores a failure. -/
def noteGlobal (i : Nat) (name : String) (value : Option Value) : Program Unit :=
  match value with
  | none => return ()
  | some value => do let _ ← Interp.write i name none value .globalOnly

def runError (i : Nat) (words : List Value) : Program Status :=
  let finish (message : Value) (trail code : Option Value) : Program Status := do
    noteGlobal i "errorInfo" trail
    noteGlobal i "errorCode" code
    Interp.setResult i message
    return .error
  match words with
  | [_, message] => finish message none none
  | [_, message, trail] => finish message (some trail) none
  | [_, message, trail, code] => finish message (some trail) (some code)
  | _ => Interp.wrongNumArgs i words 1 "message ?errorInfo? ?errorCode?"

def runEval (i : Nat) (words : List Value) : Program Status :=
  match words with
  | [_, script] => Program.eval i script.str
  | _ :: first :: rest => Program.eval i (concatText (first :: rest))
  | _ => Interp.wrongNumArgs i words 1 "arg ?arg ...?"

def runInfo (i : Nat) (words : List Value) : Program Status :=
  match words with
  | _ :: option :: args =>
    match option.str, args with
    | "exists", [name] => do
      let vars := (← Program.interpreter i).vars
      let r := VarRef.resolve name.str none
      answer i (.boolean (vars.defined r || vars.isArrayName r.name))
    | "exists", _ => Interp.wrongNumArgs i words 2 "varName"
    | "commands", [] => do
      answer i (fittingNames none (← Program.interpreter i).commandNames)
    | "commands", [pattern] => do
      answer i (fittingNames (some pattern) (← Program.interpreter i).commandNames)
    | other, _ => Interp.fail i ("unknown or ambiguous subcommand \"" ++ other ++
        "\": must be commands, or exists")
  | _ => Interp.wrongNumArgs i words 1 "subcommand ?arg ...?"

def runRename (i : Nat) (words : List Value) : Program Status :=
  match words with
  | [_, old, new] => Interp.renameCommand i old.str new.str
  | _ => Interp.wrongNumArgs i words 1 "oldName newName"

/-- The status that a completion code names. -/
def completion? (code : String) : Option Status :=
  match code with
  | "ok" | "0" => some .ok
  | "error" | "1" => some .error
  | "return" | "2" => some .returned
  | _ => none

/-- The options of `return`: the status and the arguments behind them, or the
code that is none. -/
def returnOptions (status : Status) : List Value → Except String (Status × List Value)
  | option :: code :: rest =>
    if option.str == "-code" then
      match completion? code.str with
      | some status => returnOptions status rest
      | none => .error code.str
    else .ok (status, option :: code :: rest)
  | args => .ok (status, args)

def runReturn (i : Nat) (words : List Value) : Program Status :=
  match returnOptions .returned words.tail with
  | .error code => Interp.fail i ("bad completion code \"" ++ code ++
      "\": must be ok, error, or return")
  | .ok (status, []) => do
    Interp.resetResult i
    return status
  | .ok (status, [value]) => do
    Interp.setResult i value
    return status
  | .ok _ => Interp.wrongNumArgs i words 1 "?-code code? ?result?"

end Builtin
end CommandBridge
