/-
# Helpers of the built-in commands

Arguments are read as integers or lists with the message of a failure left in
the result register.
-/

import CommandBridge.Interpreter.Evaluate
import CommandBridge.Text.Glob
import CommandBridge.Value.Access

namespace CommandBridge
namespace Builtin

/-- Goes on with what could be read, or reports why it could not.  Nothing goes on
behind an overflow. -/
def withRead {α : Type} (i : Nat) (a : Except Value.AccessError α)
    (k : α → Program Status) : Program Status :=
  match a with
  | .ok a => k a
  | .error (.overflow cause) => .overflow cause
  | .error e => Interp.fail i e.message

/-- Ends with a value as the result. -/
def answer (i : Nat) (v : Value) : Program Status := do
  Interp.setResult i v
  return .ok

/-- Ends with the value of an access as the result, or with its error. -/
def answerAccess (i : Nat) (v : Option Value) : Program Status :=
  match v with
  | some v => answer i v
  | none => return .error

/-- The names that fit an optional pattern, as a list value. -/
def fittingNames (pattern : Option Value) (names : List String) : Value :=
  let pattern := (pattern.map Value.str).getD "*"
  .list ((names.filter (Glob.fits pattern)).map .text)

end Builtin
end CommandBridge
