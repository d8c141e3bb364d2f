/-
# One pass is reading and then running

The stages of `Interleaved` read and run in turns, so a run could change what is
read after it.  It cannot: every stage does what running the tree of its reader
does, and gives back the characters that the reader gives back (`words_eq`,
`evalScript_eq`).  The trees do not know of any run, so the values that are
substituted never change how a command is split into words (`words_alike`).

A stage that is given an early end by a status never gets `ok` for it
(`ends_wordsOf`), which is why a script may tell the two ends apart by the status
alone.
-/

import CommandBridge.Proofs.Script.Interleaved
import CommandBridge.Proofs.Script.Plain
import CommandBridge.Proofs.Script.Reading
import CommandBridge.Scenario.Dispatch

namespace CommandBridge
namespace Interleaved

/-! ### Running a tree -/

/-- Runs the words of a command. -/
def wordsOf (i : Nat) (t : Words) : ExceptT Status Program (List Value) :=
  ExceptT.mk (Interp.runWords i t)

/-- Runs the pieces of a word. -/
def piecesOf (i : Nat) (draft : Draft) (t : Pieces) : ExceptT Status Program Draft :=
  ExceptT.mk (Interp.runPieces i t draft)

/-- Runs one piece of a word. -/
def pieceOf (i : Nat) (draft : Draft) (t : Piece) : ExceptT Status Program Draft :=
  ExceptT.mk (Interp.runPiece i t draft)

/-- Runs the commands of a script. -/
def scriptOf (i : Nat) (t : Script) : ExceptT Status Program Unit :=
  checked (Interp.runScript i t)

theorem wordsOf_done (i : Nat) : wordsOf i .done = pure [] := by
  rw [wordsOf, Interp.runWords]
  rfl

theorem wordsOf_fail (i : Nat) (e : ScriptError) : wordsOf i (.fail e) = broken i e := by
  rw [wordsOf, Interp.runWords, broken]

theorem wordsOf_literal (i : Nat) (s : String) (rest : Words) :
    wordsOf i (.literal s rest) = do
      let vs ← wordsOf i rest
      return .text s :: vs := by
  rw [wordsOf, Interp.runWords]
  refine bind_congr (m := Program) fun r => ?_
  cases r <;> rfl

theorem wordsOf_word (i : Nat) (pieces : Pieces) (rest : Words) :
    wordsOf i (.word pieces rest) = do
      let draft ← piecesOf i .blank pieces
      let vs ← wordsOf i rest
      return draft.finish :: vs := by
  rw [wordsOf, Interp.runWords]
  refine bind_congr (m := Program) fun r => ?_
  cases r with
  | error status => rfl
  | ok draft =>
    refine bind_congr (m := Program) fun r => ?_
    cases r <;> rfl

theorem piecesOf_done (i : Nat) (draft : Draft) : piecesOf i draft .done = pure draft := by
  rw [piecesOf, Interp.runPieces]
  rfl

theorem piecesOf_cons (i : Nat) (draft : Draft) (piece : Piece) (rest : Pieces) :
    piecesOf i draft (.cons piece rest) =
      pieceOf i draft piece >>= fun draft => piecesOf i draft rest := by
  rw [piecesOf, Interp.runPieces]
  refine bind_congr (m := Program) fun r => ?_
  cases r <;> rfl

/-- A program of the interpreter leads into the evaluation without a status. -/
theorem lift_bind {α β : Type} (p : Program α) (f : α → ExceptT Status Program β) :
    (monadLift p : ExceptT Status Program α) >>= f = ExceptT.mk (p >>= fun a => (f a).run) := by
  change (p.bind fun a => .done (.ok a)).bind (ExceptT.bindCont f) = p.bind f
  rw [Program.bind_bind]
  rfl

theorem checked_bind {β : Type} (p : Program Status) (f : Unit → ExceptT Status Program β) :
    checked p >>= f = ExceptT.mk do
      match ← p with
      | .ok => (f ()).run
      | status => return .error status := by
  change (p.bind _).bind (ExceptT.bindCont f) = p.bind _
  rw [Program.bind_bind]
  refine bind_congr (m := Program) fun status => ?_
  cases status <;> rfl

theorem pieceOf_fail (i : Nat) (draft : Draft) (e : ScriptError) :
    pieceOf i draft (.fail e) = broken i e := by
  rw [pieceOf, Interp.runPiece, broken]

theorem pieceOf_char (i : Nat) (draft : Draft) (c : Char) :
    pieceOf i draft (.char c) = pure (draft.pushChar c) := by
  rw [pieceOf, Interp.runPiece]
  rfl

theorem pieceOf_var (i : Nat) (draft : Draft) (name : String) :
    pieceOf i draft (.var name) = do
      let value ← ExceptT.mk (Interp.runVar i name none)
      return draft.push value := by
  rw [pieceOf, Interp.runPiece]
  refine bind_congr (m := Program) fun r => ?_
  cases r <;> rfl

theorem pieceOf_elem (i : Nat) (draft : Draft) (name : String) (key : Pieces) :
    pieceOf i draft (.elem name key) = do
      let key ← piecesOf i .blank key
      let value ← ExceptT.mk (Interp.runVar i name (some key.finish.str))
      return draft.push value := by
  rw [pieceOf, Interp.runPiece]
  refine bind_congr (m := Program) fun r => ?_
  cases r with
  | error status => rfl
  | ok key =>
    refine bind_congr (m := Program) fun r => ?_
    cases r <;> rfl

theorem pieceOf_script (i : Nat) (draft : Draft) (s : Script) :
    pieceOf i draft (.script s) = do
      Interp.resetResult i
      scriptOf i s
      return draft.push (← Interp.result i) := by
  rw [pieceOf, Interp.runPiece]
  simp only [lift_bind, scriptOf, checked_bind]
  refine bind_congr (m := Program) fun _ => ?_
  refine bind_congr (m := Program) fun status => ?_
  cases status <;> rfl

theorem scriptOf_done (i : Nat) : scriptOf i .done = pure () := by
  rw [scriptOf, Interp.runScript]
  rfl

theorem scriptOf_fail (i : Nat) (e : ScriptError) : scriptOf i (.fail e) = broken i e := by
  rw [scriptOf, Interp.runScript]
  rfl

/-- No result of the evaluation says that it ended early with `ok`. -/
def Ends {α : Type} (x : ExceptT Status Program α) : Prop :=
  Program.Always (· ≠ .error .ok) x.run

theorem Ends.bind {α β : Type} {x : ExceptT Status Program α} {f : α → ExceptT Status Program β}
    (hx : Ends x) (hf : ∀ a, Ends (f a)) : Ends (x >>= f) := by
  refine Program.Always.bind hx fun r hr => ?_
  cases r with
  | error status => exact fun h => hr (congrArg Except.error (Except.error.inj h))
  | ok a => exact hf a

theorem ends_pure {α : Type} (a : α) : Ends (pure a) := by
  rintro ⟨⟩

theorem ends_lift {α : Type} (p : Program α) : Ends (monadLift p : ExceptT Status Program α) := by
  refine Program.Always.bind (P := fun _ => True)
    (Program.always_of_forall (fun _ => trivial) p) fun a _ => ?_
  rintro ⟨⟩

theorem ends_checked (p : Program Status) : Ends (checked p) := by
  refine Program.Always.bind (P := fun _ => True)
    (Program.always_of_forall (fun _ => trivial) p) fun status _ => ?_
  cases status <;> rintro ⟨⟩

theorem ends_broken {α : Type} (i : Nat) (e : ScriptError) :
    Ends (broken i e : ExceptT Status Program α) := by
  intro w
  rintro ⟨⟩

theorem ends_runVar (i : Nat) (name : String) (key : Option String) :
    Ends (ExceptT.mk (Interp.runVar i name key)) := by
  refine Program.Always.bind (P := fun _ => True)
    (Program.always_of_forall (fun _ => trivial) _) fun r _ => ?_
  cases r <;> rintro ⟨⟩

mutual

theorem ends_wordsOf (i : Nat) : (t : Words) → Ends (wordsOf i t)
  | .done => by
    rw [wordsOf_done]
    exact ends_pure _
  | .fail e => by
    rw [wordsOf_fail]
    exact ends_broken i e
  | .literal s rest => by
    rw [wordsOf_literal]
    exact (ends_wordsOf i rest).bind fun _ => ends_pure _
  | .word pieces rest => by
    rw [wordsOf_word]
    exact (ends_piecesOf i pieces .blank).bind fun _ =>
      (ends_wordsOf i rest).bind fun _ => ends_pure _

theorem ends_piecesOf (i : Nat) : (t : Pieces) → (draft : Draft) → Ends (piecesOf i draft t)
  | .done, draft => by
    rw [piecesOf_done]
    exact ends_pure _
  | .cons piece rest, draft => by
    rw [piecesOf_cons]
    exact (ends_pieceOf i piece draft).bind fun draft => ends_piecesOf i rest draft

theorem ends_pieceOf (i : Nat) : (t : Piece) → (draft : Draft) → Ends (pieceOf i draft t)
  | .fail e, draft => by
    rw [pieceOf_fail]
    exact ends_broken i e
  | .char c, draft => by
    rw [pieceOf_char]
    exact ends_pure _
  | .var name, draft => by
    rw [pieceOf_var]
    exact (ends_runVar i name none).bind fun _ => ends_pure _
  | .elem name key, draft => by
    rw [pieceOf_elem]
    exact (ends_piecesOf i key .blank).bind fun _ =>
      (ends_runVar i name _).bind fun _ => ends_pure _
  | .script s, draft => by
    rw [pieceOf_script]
    exact (ends_lift _).bind fun _ => (ends_checked _).bind fun _ =>
      (ends_lift _).bind fun _ => ends_pure _

end

theorem scriptOf_command (i : Nat) (words : Words) (rest : Script) :
    scriptOf i (.command words rest) = (do
      let vs ← wordsOf i words
      obey i vs
      scriptOf i rest) := by
  rw [scriptOf, Interp.runScript]
  change (Program.bind _ _).bind _ = Program.bind _ _
  rw [Program.bind_bind]
  refine (ends_wordsOf i words).bind_congr fun r hr => ?_
  cases r with
  | error status =>
    cases status with
    | ok => exact absurd rfl hr
    | error | returned => rfl
  | ok vs =>
    cases vs with
    | nil => rfl
    | cons v vs =>
      refine Eq.trans ?_ (checked_bind (Program.invoke i (v :: vs)) fun _ => scriptOf i rest).symm
      change (Program.bind _ _).bind _ = Program.bind _ _
      rw [Program.bind_bind]
      refine bind_congr (m := Program) fun status => ?_
      cases status <;> rfl

/-! ### One pass is reading and then running -/

/-- What a reader gives back, with its tree run. -/
def settle {τ α : Type} {n : Nat} (r : Script.Reading τ n) (run : τ → ExceptT Status Program α) :
    Stage α n := do
  let a ← run r.1.1
  return (a, ⟨r.1.2, r.2⟩)

theorem settle_eq {τ α : Type} {n : Nat} {r : Script.Reading τ n} {t : τ} {rest : List Char}
    (h : r.1 = (t, rest)) (hn : rest.length ≤ n) (run : τ → ExceptT Status Program α) :
    settle r run = (do
      let a ← run t
      return (a, ⟨rest, hn⟩)) := by
  obtain ⟨⟨t', rest'⟩, hr⟩ := r
  cases h
  rfl

theorem settle_bind {τ α β : Type} {n : Nat} (r : Script.Reading τ n)
    (run : τ → ExceptT Status Program α) (f : α × Rest n → ExceptT Status Program β) :
    settle r run >>= f = run r.1.1 >>= fun a => f (a, ⟨r.1.2, r.2⟩) := by
  rw [settle, bind_assoc]
  simp only [pure_bind]

/-- A name in braces behind a dollar sign. -/
theorem dollar_braced (i : Nat) (r : List Char) (draft : Draft) :
    (do
      let named ← dollar i ('\x7b' :: r)
      return (pushNamed draft named.1, named.2)) =
      settle (Script.readPiece '$' ('\x7b' :: r)) (pieceOf i draft) := by
  have hv := Script.readPiece_braced r
  rw [dollar]
  split
  · rename_i h
    simp only [h] at hv
    rw [settle_eq hv (Nat.zero_le _), pieceOf_fail]
    rfl
  · rename_i name behind h
    have hl := Script.length_lt_of_bracedName? h
    simp only [h] at hv
    rw [settle_eq hv (Nat.le_succ_of_le (Nat.le_of_lt hl)), pieceOf_var, bind_assoc, bind_assoc]
    rfl

mutual

theorem script_eq (i : Nat) (nested : Bool) (cs : List Char) :
    script i nested cs = settle (Script.readScript nested cs) (scriptOf i) := by
  have hs := Script.length_skipSeparators_le cs
  have hv := Script.readScript_val nested cs
  rw [script]
  split
  · rename_i h
    simp only [h] at hv
    rw [settle_eq hv (Nat.zero_le _)]
    cases nested with
    | false =>
      rw [if_neg Bool.false_ne_true, if_neg Bool.false_ne_true, scriptOf_done]
      rfl
    | true =>
      rw [if_pos rfl, if_pos rfl, scriptOf_fail]
      rfl
  · rename_i c r h
    have hr : r.length < cs.length := by
      rw [h] at hs
      exact hs
    simp only [h] at hv
    split_ifs at hv ⊢ with hb hc
    · rw [settle_eq hv (Nat.le_of_lt hr), scriptOf_done]
      rfl
    · have hl := Script.length_skipComment_le r
      rw [script_eq i nested (Script.skipComment r), settle_bind]
      rw [settle_eq hv (Nat.le_trans (Script.readScript nested _).2
        (Nat.le_trans hl (Nat.le_of_lt hr)))]
      rfl
    · have hl := (Script.readCommand nested c r).2
      rw [command_eq i nested c r, settle_bind]
      rw [settle_eq hv (Nat.le_trans (Script.readScript nested _).2
        (Nat.le_trans hl (Nat.le_of_lt hr))), scriptOf_command, bind_assoc]
      refine bind_congr fun vs => ?_
      dsimp only
      rw [script_eq i nested (Script.readCommand nested c r).1.2, bind_assoc]
      refine bind_congr fun _ => ?_
      rw [settle_bind]
      rfl
termination_by 6 * cs.length + 5
decreasing_by all_goals omega

theorem words_eq (i : Nat) (nested : Bool) (cs : List Char) :
    words i nested cs = settle (Script.readWords nested cs) (wordsOf i) := by
  have hs := Script.length_skipBlanks_le cs
  have hv := Script.readWords_val nested cs
  rw [words]
  split
  · rename_i h
    simp only [h] at hv
    rw [settle_eq hv (Nat.zero_le _), wordsOf_done]
    rfl
  · rename_i c r h
    have hr : r.length < cs.length := by
      rw [h] at hs
      exact hs
    simp only [h] at hv
    split_ifs at hv ⊢ with hb hc
    · rw [settle_eq hv (Nat.le_of_lt hr), wordsOf_done]
      rfl
    · rw [settle_eq hv hr, wordsOf_done]
      rfl
    · rw [command_eq i nested c r, settle_bind]
      rw [settle_eq hv (Nat.le_trans (Script.readCommand nested c r).2 (Nat.le_of_lt hr))]
      rfl
termination_by 6 * cs.length + 4
decreasing_by all_goals omega

/-- A word between braces. -/
theorem command_braced (i : Nat) (nested : Bool) (r : List Char) :
    command i nested '\x7b' r = settle (Script.readCommand nested '\x7b' r) (wordsOf i) := by
  have hv := Script.readCommand_val nested '\x7b' r
  rw [command, word]
  rw [if_pos (beq_self_eq_true _)] at hv ⊢
  split
  · rename_i h
    simp only [h] at hv
    rw [settle_eq hv (Nat.zero_le _), wordsOf_fail]
    rfl
  · rename_i text behind h
    have hl := Word.length_lt_of_closeBrace h
    simp only [h] at hv
    split_ifs at hv ⊢ with he
    · rw [settle_eq hv (Nat.le_trans (Script.readWords nested _).2 (Nat.le_of_lt hl)),
        wordsOf_literal, pure_bind]
      dsimp only
      rw [words_eq i nested behind, settle_bind, bind_assoc]
      rfl
    · rw [settle_eq hv (Nat.zero_le _), wordsOf_fail]
      rfl
termination_by 6 * (r.length + 1) + 2
decreasing_by all_goals omega

/-- A word between quotes. -/
theorem command_quoted (i : Nat) (nested : Bool) (r : List Char) :
    command i nested '"' r = settle (Script.readCommand nested '"' r) (wordsOf i) := by
  have hv := Script.readCommand_val nested '"' r
  have hp := (Script.readPieces .quoted r).2
  rw [command, word]
  rw [if_neg (by decide), if_pos (beq_self_eq_true _)] at hv ⊢
  rw [pieces_eq i .quoted r, settle_bind, bind_assoc]
  split_ifs at hv with he
  · rw [settle_eq hv (Nat.le_trans (Script.readWords nested _).2 hp), wordsOf_word, bind_assoc]
    refine bind_congr fun draft => ?_
    dsimp only
    rw [if_pos he, pure_bind]
    dsimp only
    rw [words_eq i nested (Script.readPieces .quoted r).1.2, settle_bind, bind_assoc]
    rfl
  · rw [settle_eq hv (Nat.zero_le _), wordsOf_word, bind_assoc]
    refine bind_congr fun draft => ?_
    dsimp only
    rw [if_neg he, wordsOf_fail]
    rfl
termination_by 6 * (r.length + 1) + 2
decreasing_by all_goals omega

theorem command_eq (i : Nat) (nested : Bool) (c : Char) (r : List Char) :
    command i nested c r = settle (Script.readCommand nested c r) (wordsOf i) := by
  by_cases hb : c = '\x7b'
  · subst hb
    exact command_braced i nested r
  by_cases hq : c = '"'
  · subst hq
    exact command_quoted i nested r
  have hv := Script.readCommand_val nested c r
  have hf := (Script.readPiece c r).2
  have hp := (Script.readPieces (.bare nested) (Script.readPiece c r).1.2).2
  rw [command, word]
  rw [if_neg (by simpa using hb), if_neg (by simpa using hq)] at hv ⊢
  dsimp only at hv
  rw [settle_eq hv (Nat.le_trans (Script.readWords nested _).2 (Nat.le_trans hp hf)),
    wordsOf_word, piecesOf_cons, piece_eq i c r .blank, settle_bind, bind_assoc, bind_assoc,
    bind_assoc]
  refine bind_congr fun draft => ?_
  dsimp only
  rw [pieces_eq i (.bare nested) (Script.readPiece c r).1.2 draft, settle_bind, bind_assoc]
  refine bind_congr fun draft => ?_
  rw [pure_bind]
  dsimp only [Rest.widen]
  rw [words_eq i nested (Script.readPieces (.bare nested) (Script.readPiece c r).1.2).1.2,
    settle_bind, bind_assoc]
  rfl
termination_by 6 * (r.length + 1) + 3
decreasing_by all_goals omega

theorem pieces_eq (i : Nat) (context : Script.Context) (cs : List Char) (draft : Draft) :
    pieces i context cs draft = settle (Script.readPieces context cs) (piecesOf i draft) := by
  cases cs with
  | nil =>
    rw [settle_eq (Script.readPieces_nil context) (Nat.zero_le _)]
    cases context with
    | bare nested =>
      rw [pieces, Script.Context.atEnd, piecesOf_done]
      rfl
    | quoted | key =>
      rw [pieces, Script.Context.atEnd, piecesOf_cons, pieceOf_fail]
      rfl
  | cons c r =>
    have hv := Script.readPieces_cons context c r
    rw [pieces]
    split_ifs at hv ⊢ with hc hs
    · rw [settle_eq hv (Nat.le_succ _), piecesOf_done]
      rfl
    · rw [settle_eq hv (Nat.le_refl _), piecesOf_done]
      rfl
    · have hp := (Script.readPiece c r).2
      rw [piece_eq i c r draft, settle_bind]
      rw [settle_eq hv (Nat.le_succ_of_le (Nat.le_trans (Script.readPieces context _).2 hp)),
        piecesOf_cons, bind_assoc]
      refine bind_congr fun draft => ?_
      dsimp only
      rw [pieces_eq i context (Script.readPiece c r).1.2 draft, settle_bind]
      rfl
termination_by 6 * cs.length + 2
decreasing_by all_goals (simp only [List.length_cons] at *; omega)

theorem piece_eq (i : Nat) (c : Char) (r : List Char) (draft : Draft) :
    piece i c r draft = settle (Script.readPiece c r) (pieceOf i draft) := by
  rw [piece]
  split_ifs with hd hb he
  · obtain rfl := eq_of_beq hd
    by_cases hr : ∃ r', r = '\x7b' :: r'
    · obtain ⟨r, rfl⟩ := hr
      exact dollar_braced i r draft
    · exact dollar_named i draft fun r' h => hr ⟨r', h⟩
  · obtain rfl := eq_of_beq hb
    rw [script_eq i true r, settle_eq (Script.readPiece_bracket r) (Script.readScript true r).2,
      pieceOf_script]
    simp only [bind_assoc, settle_bind, pure_bind]
  · obtain rfl := eq_of_beq he
    rw [settle_eq (Script.readPiece_backslash r) (Word.length_escape_le r), pieceOf_char]
    rfl
  · rw [settle_eq (Script.readPiece_char (by simpa using hd) (by simpa using hb)
      (by simpa using he) r) (Nat.le_refl _), pieceOf_char]
    rfl
termination_by 6 * (r.length + 1) + 1
decreasing_by all_goals omega

/-- A name behind a dollar sign, with a key or without. -/
theorem dollar_named (i : Nat) {r : List Char} (draft : Draft) (hr : ∀ r', r ≠ '\x7b' :: r') :
    (do
      let named ← dollar i r
      return (pushNamed draft named.1, named.2)) =
      settle (Script.readPiece '$' r) (pieceOf i draft) := by
  have hl := Script.length_variableName_le r
  rw [dollar]
  · split
    · rename_i name behind h
      have hb : behind.length < r.length := by
        rw [h] at hl
        exact hl
      have hp := (Script.readPieces .key behind).2
      rw [settle_eq (Script.readPiece_elem hr h) (Nat.le_trans hp (Nat.le_of_lt hb)),
        pieceOf_elem, pieces_eq i .key behind .blank, settle_bind, bind_assoc, bind_assoc]
      refine bind_congr fun key => ?_
      rw [bind_assoc, bind_assoc]
      rfl
    · rename_i name behind hb h
      have hv := Script.readPiece_var hr hb h
      rw [h] at hl
      rw [settle_eq hv hl]
      split_ifs with hn
      · rw [pieceOf_char]
        rfl
      · rw [pieceOf_var, bind_assoc, bind_assoc]
        rfl
  · exact hr
termination_by 6 * r.length + 3
decreasing_by all_goals omega

end

/-! ### What follows for the evaluator -/

/-- The status that an evaluation ends with. -/
def status {α : Type} : Except Status α → Status
  | .ok _ => .ok
  | .error status => status

theorem status_script (i : Nat) (nested : Bool) (cs : List Char) :
    (do return status (← (script i nested cs).run)) =
      Interp.runScript i (Script.readScript nested cs).1.1 := by
  rw [script_eq, settle, scriptOf, checked_bind]
  change (Program.bind _ _).bind _ = _
  rw [Program.bind_bind]
  refine Eq.trans ?_ (bind_pure (m := Program) _)
  refine bind_congr (m := Program) fun s => ?_
  cases s <;> rfl

/-- **Evaluating a script in one pass is what the evaluator does.** -/
theorem evalScript_eq (i : Nat) (source : String) :
    Interp.evalScript i source = Interp.guarded i do
      Interp.resetResult i
      return status (← (script i false source.toList).run) := by
  rw [status_script]
  rfl

/-- A run that comes to an end stops where the reader stops, has a value for each
word of the tree, and leaves the words without substitution as they are written. -/
theorem runs_words {handler : Machine.Handler} {i : Nat} {nested : Bool} {cs : List Char}
    {w w' : World} {vs : List Value} {rest : Rest cs.length}
    (h : Program.Runs handler (words i nested cs).run w (.ok (vs, rest)) w') :
    rest.1 = (Script.readWords nested cs).1.2 ∧
      Interp.AsWritten (Script.readWords nested cs).1.1.substituted
        (Script.readWords nested cs).1.1.texts vs := by
  rw [words_eq] at h
  obtain ⟨r, w₁, hr, hk⟩ := Program.runs_bind_iff.1 h
  cases r with
  | error status =>
    obtain ⟨hs, -⟩ := Program.runs_done_iff.1 hk
    cases hs
  | ok vs' =>
    obtain ⟨hs, -⟩ := Program.runs_done_iff.1 hk
    cases hs
    exact ⟨rfl, hr.always (Interp.always_runWords i _) vs rfl⟩

/-- **Substituted values never change how a command is split.**  Whatever the
interpreters hold and their commands do, two evaluations of the words of a
command that come to an end stop at the same place and have as many words, and a
word that is written without substitution has the same text in both, which is
the text that the source gives it. -/
theorem words_alike {h₁ h₂ : Machine.Handler} {i₁ i₂ : Nat} {nested : Bool} {cs : List Char}
    {w₁ w₁' w₂ w₂' : World} {vs₁ vs₂ : List Value} {rest₁ rest₂ : Rest cs.length}
    (r₁ : Program.Runs h₁ (words i₁ nested cs).run w₁ (.ok (vs₁, rest₁)) w₁')
    (r₂ : Program.Runs h₂ (words i₂ nested cs).run w₂ (.ok (vs₂, rest₂)) w₂') :
    rest₁.1 = rest₂.1 ∧ vs₁.length = vs₂.length ∧
      ∀ n : Nat, (Script.readWords nested cs).1.1.substituted[n]? = some false →
        ∃ s, (Script.readWords nested cs).1.1.texts[n]? = some (some s) ∧
          vs₁[n]?.map Value.str = some s ∧ vs₂[n]?.map Value.str = some s := by
  obtain ⟨hrest₁, hlen₁, hvs₁⟩ := runs_words r₁
  obtain ⟨hrest₂, hlen₂, hvs₂⟩ := runs_words r₂
  refine ⟨hrest₁.trans hrest₂.symm, hlen₁.trans hlen₂.symm, fun n hn => ?_⟩
  obtain ⟨s, hs, hn₁⟩ := hvs₁ n hn
  obtain ⟨t, ht, hn₂⟩ := hvs₂ n hn
  have hst : t = s := by simpa [hs] using ht.symm
  exact ⟨s, hs, hn₁, hst ▸ hn₂⟩

/-- A variable may hold any text; it is one word. -/
theorem exists_runs_words (v : String) :
    ∃ (w : World) (rest : Rest ['$', 'x', ' ', 'c'].length), Program.Runs Scenario.handle
      (words 0 false ['$', 'x', ' ', 'c']).run w (.ok ([.text v, .text "c"], rest)) w := by
  have htree : (Script.readWords false ['$', 'x', ' ', 'c']).1 =
      (.word (.cons (.var "x") .done) (.word (.cons (.char 'c') .done) .done), []) := by
    cbv
  let x : Variable := { content := .scalar (.text v) }
  refine ⟨{ interpreters := Pool.empty.add { vars := (∅ : Variables).insert "x" x } },
    .none, ?_⟩
  rw [words_eq, settle_eq htree (Nat.zero_le _)]
  exact .get (.get (.done _ _))

/-- A variable with a blank in its value and one without text give one word each. -/
theorem words_alike_blank : ∃ (w₁ w₂ : World) (rest₁ rest₂ : Rest ['$', 'x', ' ', 'c'].length),
    Program.Runs Scenario.handle (words 0 false ['$', 'x', ' ', 'c']).run w₁
      (.ok ([.text "a b", .text "c"], rest₁)) w₁ ∧
    Program.Runs Scenario.handle (words 0 false ['$', 'x', ' ', 'c']).run w₂
      (.ok ([.text "", .text "c"], rest₂)) w₂ ∧
    rest₁.1 = rest₂.1 := by
  obtain ⟨w₁, rest₁, r₁⟩ := exists_runs_words "a b"
  obtain ⟨w₂, rest₂, r₂⟩ := exists_runs_words ""
  exact ⟨w₁, w₂, rest₁, rest₂, r₁, r₂, (words_alike r₁ r₂).1⟩

end Interleaved
end CommandBridge
