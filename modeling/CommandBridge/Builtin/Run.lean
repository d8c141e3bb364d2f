/-
# Running built-in commands
-/

import CommandBridge.Builtin.Control
import CommandBridge.Builtin.Texts
import CommandBridge.Builtin.Variables

namespace CommandBridge
namespace Builtin

/-- Runs a built-in command on its words. -/
def run (b : Builtin) (i : Nat) (words : List Value) : Program Status :=
  match b with
  | .append => runAppend i words
  | .array => runArray i words
  | .catch => runCatch i words
  | .concat => runConcat i words
  | .encoding => runEncoding i words
  | .error => runError i words
  | .eval => runEval i words
  | .incr => runIncr i words
  | .info => runInfo i words
  | .join => runJoin i words
  | .lappend => runLappend i words
  | .lindex => runLindex i words
  | .list => runList i words
  | .llength => runLlength i words
  | .puts => runPuts i words
  | .rename => runRename i words
  | .return => runReturn i words
  | .set => runSet i words
  | .string => runString i words
  | .unset => runUnset i words

end Builtin
end CommandBridge
