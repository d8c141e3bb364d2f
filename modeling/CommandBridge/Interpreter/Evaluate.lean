/-
# Evaluation

The words of a command are substituted from left to right and the command is
invoked before the words of the next one are looked at; the first command that
does not end with `ok` ends the script.  A word that is one substituted value is
that value; any other is a text.

An evaluation preserves its interpreter.  Only invocations count as nesting.
-/

import CommandBridge.Interpreter.Lifetime
import CommandBridge.Script.Reader

namespace CommandBridge

/-- A word while it is put together. -/
inductive Draft where
  | blank
  | value (v : Value)
  | text (s : String)
deriving Inhabited

namespace Draft

/-- The text so far. -/
def str : Draft → String
  | .blank => ""
  | .value v => v.str
  | .text s => s

/-- Appends a substituted value. -/
def push (d : Draft) (v : Value) : Draft :=
  match d with
  | .blank => .value v
  | d => .text (d.str ++ v.str)

/-- Appends a character. -/
def pushChar (d : Draft) (c : Char) : Draft :=
  .text (d.str.push c)

/-- The finished word. -/
def finish : Draft → Value
  | .value v => v
  | d => .text d.str

end Draft

namespace Interp

/-- A substitution that a broken rule ends, with the status of its script. -/
def broken {α : Type} (i : Nat) (e : ScriptError) : Program (Except Status α) := do
  return .error (← fail i e.message)

/-- Substitutes a variable or element. -/
def runVar (i : Nat) (name : String) (key : Option String) : Program (Except Status Value) := do
  match ← read i name key .leaveErrorMessage with
  | some v => return .ok v
  | none => return .error .error

mutual

/-- Runs the commands of a script. -/
def runScript (i : Nat) : Script → Program Status
  | .done => return .ok
  | .fail e => fail i e.message
  | .command words rest => do
    match ← runWords i words with
    | .error status => return status
    | .ok words =>
      let status ← if words.isEmpty then pure .ok else Program.invoke i words
      match status with
      | .ok => runScript i rest
      | status => return status

/-- Substitutes the words of a command. -/
def runWords (i : Nat) : Words → Program (Except Status (List Value))
  | .done => return .ok []
  | .fail e => broken i e
  | .literal s rest => do
    match ← runWords i rest with
    | .error status => return .error status
    | .ok words => return .ok (.text s :: words)
  | .word pieces rest => do
    match ← runPieces i pieces .blank with
    | .error status => return .error status
    | .ok draft =>
      match ← runWords i rest with
      | .error status => return .error status
      | .ok words => return .ok (draft.finish :: words)

/-- Appends the pieces of a word. -/
def runPieces (i : Nat) : Pieces → Draft → Program (Except Status Draft)
  | .done, draft => return .ok draft
  | .cons piece rest, draft => do
    match ← runPiece i piece draft with
    | .error status => return .error status
    | .ok draft => runPieces i rest draft

/-- Appends one piece of a word. -/
def runPiece (i : Nat) : Piece → Draft → Program (Except Status Draft)
  | .fail e, _ => broken i e
  | .char c, draft => return .ok (draft.pushChar c)
  | .var name, draft => do
    return (← runVar i name none).map draft.push
  | .elem name key, draft => do
    match ← runPieces i key .blank with
    | .error status => return .error status
    | .ok key => return (← runVar i name (some key.finish.str)).map draft.push
  | .script s, draft => do
    resetResult i
    match ← runScript i s with
    | .ok => return .ok (draft.push (← result i))
    | status => return .error status

end

/-- What a status means at top level: there `returned` is `ok`. -/
def topLevel (depth : Nat) (status : Status) : Status :=
  if status = .returned ∧ depth = 0 then .ok else status

/-- Evaluates under a preserved interpreter. -/
def guarded (i : Nat) (body : Program Status) : Program Status := do
  if (← Program.interpreter i).deleted then
    fail i "attempt to call eval in deleted interpreter"
  else
    preserve i
    let status ← body
    let status := topLevel (← Program.interpreter i).depth status
    release i
    return status

/-- Evaluates a script. -/
def evalScript (i : Nat) (source : String) : Program Status :=
  guarded i do
    resetResult i
    runScript i (Script.ofText source)

/-- Evaluates one command given by its words. -/
def evalWords (i : Nat) (words : List Value) : Program Status :=
  guarded i (Program.invoke i words)

/-- Counts a nested invocation. -/
def enterCommand (i : Nat) : Program Unit :=
  Program.modifyInterpreter i fun s => { s with depth := s.depth + 1 }

/-- Ends what `enterCommand` began. -/
def leaveCommand (i : Nat) : Program Unit :=
  Program.modifyInterpreter i fun s => { s with depth := s.depth - 1 }

/-- Invokes the command that the first word names; `perform` runs its procedure. -/
def invokeWith (perform : Nat → Procedure → List Value → Program Status) (i : Nat)
    (words : List Value) : Program Status := do
  match words with
  | [] => return .ok
  | first :: _ =>
    let s ← Program.interpreter i
    if s.maxNesting ≤ s.depth then fail i "too many nested evaluations (infinite loop?)"
    else
      match s.commands[first.str]? with
      | none => fail i ("invalid command name \"" ++ first.str ++ "\"")
      | some c =>
        resetResult i
        enterCommand i
        let status ← perform i c.procedure words
        leaveCommand i
        return status

/-- Runs the optional startup script. -/
def start (i : Nat) (script : Option String) : Program Status :=
  match script with
  | some source => Program.eval i source
  | none => return .ok

end Interp
end CommandBridge
