/-
# Reading and running in one pass

A script can be evaluated without a tree: the evaluator reads on where it is,
substitutes what it has read and carries on behind it, whatever the substitution
has done to the world in between.  The stages here are written in this way, and
each gives back the characters behind what it has evaluated.

That the stages do what the running evaluator does is shown in
`CommandBridge.Proofs.Script.OnePass`.
-/

import CommandBridge.Interpreter.Evaluate
import CommandBridge.Script.Reader

namespace CommandBridge
namespace Interleaved

/-- The characters behind a stage, at most `n`. -/
abbrev Rest (n : Nat) := { cs : List Char // cs.length ≤ n }

/-- An evaluation that ends with a status other than `ok`, or with a result and
the characters behind what it has read. -/
abbrev Stage (α : Type) (n : Nat) := ExceptT Status Program (α × Rest n)

/-- A program whose status decides whether the evaluation goes on. -/
def checked (p : Program Status) : ExceptT Status Program Unit :=
  ExceptT.mk do
    match ← p with
    | .ok => return .ok ()
    | status => return .error status

/-- The same characters, with a greater bound. -/
def Rest.widen {m n : Nat} (rest : Rest m) (h : m ≤ n) : Rest n :=
  ⟨rest.1, Nat.le_trans rest.2 h⟩

/-- Behind a stage that has read everything. -/
def Rest.none {n : Nat} : Rest n :=
  ⟨[], Nat.zero_le n⟩

/-- An evaluation that a broken rule ends. -/
def broken {α : Type} (i : Nat) (e : ScriptError) : ExceptT Status Program α :=
  ExceptT.mk (Interp.broken i e)

/-- Invokes the words of a command, if there are any. -/
def obey (i : Nat) (words : List Value) : ExceptT Status Program Unit :=
  if words.isEmpty then pure () else checked (Program.invoke i words)

/-- Appends what is named behind a dollar sign; a lone dollar sign is plain text. -/
def pushNamed (draft : Draft) : Option Value → Draft
  | some value => draft.push value
  | none => draft.pushChar '$'

mutual

/-- Evaluates commands up to the end, or through the closing bracket if `nested`. -/
def script (i : Nat) (nested : Bool) (cs : List Char) : Stage Unit cs.length :=
  have hs := Script.length_skipSeparators_le cs
  match _h : Script.skipSeparators cs with
  | [] => if nested then broken i .missingBracket else return ((), .none)
  | c :: r =>
    have hr : r.length < cs.length := by rw [_h] at hs; exact hs
    if nested && c == ']' then return ((), ⟨r, Nat.le_of_lt hr⟩)
    else if c == '#' then do
      have hc := Script.length_skipComment_le r
      let (_, rest) ← script i nested (Script.skipComment r)
      return ((), rest.widen (Nat.le_trans hc (Nat.le_of_lt hr)))
    else do
      let (words, ⟨behind, hb⟩) ← command i nested c r
      obey i words
      let (_, rest) ← script i nested behind
      return ((), rest.widen (Nat.le_trans hb (Nat.le_of_lt hr)))
termination_by 6 * cs.length + 5
decreasing_by all_goals omega

/-- Evaluates the words of a command up to its end. -/
def words (i : Nat) (nested : Bool) (cs : List Char) : Stage (List Value) cs.length :=
  have hs := Script.length_skipBlanks_le cs
  match _h : Script.skipBlanks cs with
  | [] => return ([], .none)
  | c :: r =>
    have hr : r.length < cs.length := by rw [_h] at hs; exact hs
    if c == '\n' || c == ';' then return ([], ⟨r, Nat.le_of_lt hr⟩)
    else if nested && c == ']' then return ([], ⟨c :: r, hr⟩)
    else do
      let (words, rest) ← command i nested c r
      return (words, rest.widen (Nat.le_of_lt hr))
termination_by 6 * cs.length + 4
decreasing_by all_goals omega

/-- Evaluates the words of a command whose first word starts with `c`. -/
def command (i : Nat) (nested : Bool) (c : Char) (r : List Char) :
    Stage (List Value) r.length := do
  let (first, ⟨behind, hb⟩) ← word i nested c r
  let (others, rest) ← words i nested behind
  return (first :: others, rest.widen hb)
termination_by 6 * (r.length + 1) + 3
decreasing_by all_goals omega

/-- Evaluates a word that starts with `c`. -/
def word (i : Nat) (nested : Bool) (c : Char) (r : List Char) : Stage Value r.length :=
  if c == '\x7b' then
    match _h : Word.closeBrace 0 r with
    | none => broken i .missingBrace
    | some (text, behind) =>
      if Script.atWordEnd nested behind then
        return (.text (String.ofList text),
          ⟨behind, Nat.le_of_lt (Word.length_lt_of_closeBrace _h)⟩)
      else broken i .afterBrace
  else if c == '"' then do
    let (draft, rest) ← pieces i .quoted r .blank
    if Script.atWordEnd nested rest.1 then return (draft.finish, rest)
    else broken i .afterQuote
  else do
    let (draft, ⟨behind, hb⟩) ← piece i c r .blank
    let (draft, rest) ← pieces i (.bare nested) behind draft
    return (draft.finish, rest.widen hb)
termination_by 6 * (r.length + 1) + 2
decreasing_by all_goals omega

/-- Appends pieces up to the end that the context sets. -/
def pieces (i : Nat) (context : Script.Context) (cs : List Char) (draft : Draft) :
    Stage Draft cs.length :=
  match cs with
  | [] =>
    match context with
    | .bare _ => return (draft, .none)
    | .quoted => broken i .missingQuote
    | .key => broken i .missingParenthesis
  | c :: r =>
    if context.closes c then return (draft, ⟨r, Nat.le_succ _⟩)
    else if context.stops (c :: r) then return (draft, ⟨c :: r, Nat.le_refl _⟩)
    else do
      let (draft, ⟨behind, hb⟩) ← piece i c r draft
      let (draft, rest) ← pieces i context behind draft
      return (draft, rest.widen (Nat.le_succ_of_le hb))
termination_by 6 * cs.length + 2
decreasing_by all_goals rw [List.length_cons]; omega

/-- Appends one piece that starts with `c`. -/
def piece (i : Nat) (c : Char) (r : List Char) (draft : Draft) : Stage Draft r.length :=
  if c == '$' then do
    let named ← dollar i r
    return (pushNamed draft named.1, named.2)
  else if c == '[' then do
    Interp.resetResult i
    let (_, rest) ← script i true r
    return (draft.push (← Interp.result i), rest)
  else if c == '\\' then
    return (draft.pushChar (Word.escape r).1, ⟨(Word.escape r).2, Word.length_escape_le r⟩)
  else return (draft.pushChar c, ⟨r, Nat.le_refl _⟩)
termination_by 6 * (r.length + 1) + 1
decreasing_by all_goals omega

/-- The value of the variable or element that is named behind a dollar sign; none
for a lone dollar sign. -/
def dollar (i : Nat) (r : List Char) : Stage (Option Value) r.length :=
  match r with
  | '\x7b' :: r =>
    match _h : Script.bracedName? r with
    | none => broken i .missingNameBrace
    | some (name, behind) => do
      let value ← ExceptT.mk (Interp.runVar i (String.ofList name) none)
      return (some value,
        ⟨behind, Nat.le_succ_of_le (Nat.le_of_lt (Script.length_lt_of_bracedName? _h))⟩)
  | r =>
    have hv := Script.length_variableName_le r
    match _h : Script.variableName r with
    | (name, '(' :: behind) => do
      have hb : behind.length < r.length := by rw [_h] at hv; exact hv
      let (key, rest) ← pieces i .key behind .blank
      let value ← ExceptT.mk (Interp.runVar i (String.ofList name) (some key.finish.str))
      return (some value, rest.widen (Nat.le_of_lt hb))
    | (name, behind) => do
      have hb : behind.length ≤ r.length := by rw [_h] at hv; exact hv
      if name.isEmpty then return (none, ⟨behind, hb⟩)
      else
        let value ← ExceptT.mk (Interp.runVar i (String.ofList name) none)
        return (some value, ⟨behind, hb⟩)
termination_by 6 * r.length + 3
decreasing_by all_goals omega

end

end Interleaved
end CommandBridge
