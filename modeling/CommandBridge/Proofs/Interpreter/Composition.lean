/-
# Scripts one after the other

A script that ends with `ok`, a line feed and another script are one script that does
what the two do one after the other (`runText_append`).  The script that has ended with
`ok` was run to the end of its text, so no rule is broken in it
(`always_runScript_intact`), and it is read again in front of the other one.

What stands between the two runs is the result register: the second run empties it
first, and in the middle of a script nobody does.  In an interpreter without commands of
a host and without traces nobody can tell.  The words of a command are substituted
without a look at the register, and they leave it alone (`Passes`) or leave something of
their own in it (`Hides`); the command itself starts with an empty one.
-/

import CommandBridge.Proofs.Interpreter.ListEvaluation
import CommandBridge.Proofs.Interpreter.Stock
import CommandBridge.Proofs.Script.Continuation

namespace CommandBridge
namespace Interp

/-! ### What has been run is not broken -/

/-- A substitution that comes to its end has met no broken rule, and one that does not has
another status than `ok`. -/
structure Whole {α : Type} (intact : Bool) (r : Except Status α) : Prop where
  intact_of_ok {a : α} (h : r = .ok a) : intact = true
  ne_ok {status : Status} (h : r = .error status) : status ≠ .ok

theorem whole_ok {α : Type} {intact : Bool} (h : intact = true) (a : α) :
    Whole intact (.ok a : Except Status α) where
  intact_of_ok _ := h
  ne_ok h := by cases h

theorem whole_error {α : Type} {intact : Bool} {status : Status} (h : status ≠ .ok) :
    Whole intact (.error status : Except Status α) where
  intact_of_ok h := by cases h
  ne_ok hs := by
    cases hs
    exact h

/-- A substitution that goes on after another one. -/
theorem Whole.bind {α β : Type} {intact intact' : Bool} {p : Program (Except Status α)}
    {f : Except Status α → Program (Except Status β)} (hp : p.Always (Whole intact))
    (herror : ∀ status, f (.error status) = pure (.error status))
    (hok : intact = true → ∀ a, (f (.ok a)).Always (Whole intact')) :
    (p >>= f).Always (Whole intact') := by
  refine Program.Always.bind hp ?_
  rintro (status | a) h
  · rw [herror]
    exact whole_error (h.ne_ok rfl)
  · exact hok (h.intact_of_ok rfl) a

theorem always_broken_whole {α : Type} (i : Nat) (e : ScriptError) (intact : Bool) :
    (broken i e : Program (Except Status α)).Always (Whole intact) :=
  fun _ => whole_error (by decide)

theorem always_runVar_whole (i : Nat) (name : String) (key : Option String) (f : Value → Draft) :
    (do return (← runVar i name key).map f : Program (Except Status Draft)).Always
      (Whole true) := by
  rw [runVar, bind_assoc]
  refine Program.always_then fun value => ?_
  cases value with
  | none => exact whole_error (by decide)
  | some v => exact whole_ok rfl _

mutual

/-- **A script that ends with `ok` was run to the end of its text**, so no rule is broken
in it. -/
theorem always_runScript_intact (i : Nat) (s : Script) :
    (runScript i s).Always fun status => status = .ok → s.intact = true := by
  cases s with
  | done =>
    rw [runScript]
    exact fun _ => rfl
  | fail e =>
    rw [runScript]
    intro w hs
    cases hs
  | command words rest =>
    rw [runScript]
    have hrest : words.intact = true → ∀ status : Status, Program.Always
        (fun status => status = .ok → (Script.command words rest).intact = true)
        (match status with
          | .ok => runScript i rest
          | status => pure status) := by
      intro hwords status
      split
      · exact (always_runScript_intact i rest).imp fun _ hrest hs =>
          Script.intact_command_iff.2 ⟨hwords, hrest hs⟩
      · rename_i hs
        exact fun h => absurd h hs
    refine Program.Always.bind (always_runWords_whole i words) ?_
    rintro (status | ws) hws
    · exact fun hs => absurd hs (hws.ne_ok rfl)
    · dsimp only
      split <;> exact Program.always_then (hrest (hws.intact_of_ok rfl))

/-- Words that come to their end are not broken. -/
theorem always_runWords_whole (i : Nat) (words : Words) :
    (runWords i words).Always (Whole words.intact) := by
  cases words with
  | done =>
    rw [runWords]
    exact whole_ok rfl _
  | fail e =>
    rw [runWords]
    exact always_broken_whole i e _
  | literal s rest =>
    rw [runWords]
    exact Whole.bind (always_runWords_whole i rest) (fun _ => rfl) fun hrest _ => whole_ok hrest _
  | word pieces rest =>
    rw [runWords]
    refine Whole.bind (always_runPieces_whole i pieces .blank) (fun _ => rfl) fun hpieces _ => ?_
    exact Whole.bind (always_runWords_whole i rest) (fun _ => rfl) fun hrest _ =>
      whole_ok (Words.intact_word_iff.2 ⟨hpieces, hrest⟩) _

/-- Pieces that come to their end are not broken. -/
theorem always_runPieces_whole (i : Nat) (pieces : Pieces) (draft : Draft) :
    (runPieces i pieces draft).Always (Whole pieces.intact) := by
  cases pieces with
  | done =>
    rw [runPieces]
    exact whole_ok rfl _
  | cons piece rest =>
    rw [runPieces]
    refine Whole.bind (always_runPiece_whole i piece draft) (fun _ => rfl) fun hpiece draft' => ?_
    rw [show (Pieces.cons piece rest).intact = rest.intact by
      rw [Pieces.intact, hpiece, Bool.true_and]]
    exact always_runPieces_whole i rest draft'

/-- A piece that comes to its end is not broken. -/
theorem always_runPiece_whole (i : Nat) (piece : Piece) (draft : Draft) :
    (runPiece i piece draft).Always (Whole piece.intact) := by
  cases piece with
  | fail e =>
    rw [runPiece]
    exact always_broken_whole i e _
  | char c =>
    rw [runPiece]
    exact whole_ok rfl _
  | var name =>
    rw [runPiece]
    exact always_runVar_whole i name none _
  | elem name key =>
    rw [runPiece]
    refine Whole.bind (always_runPieces_whole i key .blank) (fun _ => rfl) fun hkey draft' => ?_
    rw [Piece.intact, hkey]
    exact always_runVar_whole i name _ _
  | script s =>
    rw [runPiece]
    refine Program.always_then fun _ => Program.Always.bind (always_runScript_intact i s) ?_
    intro status hs
    split
    · exact Program.always_then fun v => whole_ok (hs rfl) _
    · rename_i hne
      exact whole_error hne

end

/-- The commands of one script and then those of another one are run as two scripts, the
second of which is run if the first one ends with `ok`. -/
theorem runScript_append (i : Nat) (s t : Script) : runScript i (s.append t) = (do
    let status ← runScript i s
    if status = .ok then runScript i t else return status) := by
  fun_induction Script.append s t with
  | case1 t =>
    rw [runScript, pure_bind, if_pos rfl]
  | case2 e t =>
    rw [runScript, fail, bind_assoc]
    rfl
  | case3 words rest t ih =>
    have hrest : ∀ status : Status,
        (match status with
          | .ok => runScript i (rest.append t)
          | status => pure status) =
        (match status with
          | .ok => runScript i rest
          | status => pure status) >>= fun status =>
            if status = .ok then runScript i t else pure status := by
      rintro (_ | _ | _)
      · exact ih
      · rfl
      · rfl
    rw [runScript, runScript, bind_assoc]
    refine Program.Always.bind_congr (always_runWords_whole i words) ?_
    rintro (status | ws) hws
    · exact (if_neg (hws.ne_ok rfl)).symm
    · dsimp only
      split
      · exact hrest .ok
      · rw [bind_assoc]
        exact bind_congr hrest

/-! ### Who looks at the result register -/

section Register

variable {i : Nat} {w : World} {α β : Type}

/-- The program ends with `a` and changes nothing, whatever the result register holds. -/
structure Passes (i : Nat) (p : Program α) (w : World) (a : α) : Prop where
  runs : Program.Runs Scenario.handle p w a w
  runs_withResult (v : Value) :
    Program.Runs Scenario.handle p (w.withResult i v) a (w.withResult i v)

/-- What the result register holds at the start is of no account to the end of the
program. -/
def Hides (i : Nat) (p : Program α) (w : World) : Prop :=
  ∀ (v : Value) (e : Ending α), Program.Ends Scenario.handle p (w.withResult i v) e ↔
    Program.Ends Scenario.handle p w e

theorem Passes.pure (a : α) : Passes i (Pure.pure a : Program α) w a :=
  ⟨.done a w, fun v => .done a (w.withResult i v)⟩

theorem Passes.bind {p : Program α} {f : α → Program β} {a : α} {b : β} (hp : Passes i p w a)
    (hf : Passes i (f a) w b) : Passes i (p >>= f) w b :=
  ⟨Program.runs_bind_iff.2 ⟨a, w, hp.runs, hf.runs⟩, fun v =>
    Program.runs_bind_iff.2 ⟨a, _, hp.runs_withResult v, hf.runs_withResult v⟩⟩

theorem Passes.bind_hides {p : Program α} {f : α → Program β} {a : α} (hp : Passes i p w a)
    (hf : Hides i (f a) w) : Hides i (p >>= f) w := by
  intro v e
  rw [(hp.runs_withResult v).ends_bind_iff, hp.runs.ends_bind_iff]
  exact hf v e

theorem Hides.bind {p : Program α} (hp : Hides i p w) (f : α → Program β) :
    Hides i (p >>= f) w :=
  fun v _ => Program.ends_bind_congr (hp v) f

/-- The interpreter is looked at, but not its register. -/
theorem Passes.interpreter {f : Interpreter → Program α} {a : α}
    (hf : ∀ s v, f { s with result := v } = f s) (h : Passes i (f (w.interpreter i)) w a) :
    Passes i (Program.interpreter i >>= f) w a := by
  refine ⟨runs_interpreter_bind_iff.2 h.runs, fun v => runs_interpreter_bind_iff.2 ?_⟩
  rw [World.interpreter_withResult, hf]
  exact h.runs_withResult v

theorem Hides.interpreter {f : Interpreter → Program α}
    (hf : ∀ s v, f { s with result := v } = f s) (h : Hides i (f (w.interpreter i)) w) :
    Hides i (Program.interpreter i >>= f) w := by
  intro v e
  rw [ends_interpreter_bind_iff, ends_interpreter_bind_iff, World.interpreter_withResult, hf]
  exact h v e

theorem Overwrites.hides {p : Program α} (h : Overwrites i p) (w : World) : Hides i p w :=
  fun v e => h v w Scenario.handle e

/-- A substitution that leaves the result register alone, or something of its own in it. -/
def Blind (i : Nat) (p : Program (Except Status α)) (w : World) : Prop :=
  (∃ a, Passes i p w (.ok a)) ∨ Hides i p w

theorem Blind.ok (a : α) : Blind i (pure (.ok a) : Program (Except Status α)) w :=
  .inl ⟨a, .pure _⟩

theorem Blind.bind {p : Program (Except Status α)}
    {f : Except Status α → Program (Except Status β)} (hp : Blind i p w)
    (hf : ∀ a, Blind i (f (.ok a)) w) : Blind i (p >>= f) w := by
  rcases hp with ⟨a, hp⟩ | hp
  · rcases hf a with ⟨b, hf⟩ | hf
    · exact .inl ⟨b, hp.bind hf⟩
    · exact .inr (hp.bind_hides hf)
  · exact .inr (hp.bind f)

theorem blind_broken (e : ScriptError) :
    Blind i (broken i e : Program (Except Status α)) w :=
  .inr (((overwrites_setResult _).hides w).bind _ |>.bind _)

/-! ### Substitution -/

theorem passes_fireTraces (hw : (w.interpreter i).Stock) (r : VarRef) (op flags : Flags) :
    Passes i (fireTraces i r op flags) w none := by
  refine ⟨runs_fireTraces _ (hw.tracesFor_eq r op), fun v => runs_fireTraces _ ?_⟩
  rw [World.interpreter_withResult]
  exact hw.tracesFor_eq r op

/-- A variable is substituted without a look at the register, and if it cannot be then a
message is left there. -/
theorem blind_runVar (hw : (w.interpreter i).Stock) (name : String) (key : Option String) :
    Blind i (runVar i name key) w := by
  have hfire := passes_fireTraces hw (VarRef.resolve name key) .traceReads .leaveErrorMessage
  cases hread : (w.interpreter i).vars.read (VarRef.resolve name key) with
  | ok value =>
    have hvalue : Passes i (read i name key .leaveErrorMessage) w (some value) := by
      refine hfire.bind (.interpreter (fun _ _ => rfl) ?_)
      rw [hread]
      exact .pure _
    exact .inl ⟨value, hvalue.bind (.pure _)⟩
  | error e =>
    have hmessage : Hides i (read i name key .leaveErrorMessage) w := by
      refine hfire.bind_hides (.interpreter (fun _ _ => rfl) ?_)
      rw [hread]
      exact ((overwrites_setResult _).hides w).bind _
    exact .inr (hmessage.bind _)

mutual

theorem blind_runPieces (hw : (w.interpreter i).Stock) (pieces : Pieces) (draft : Draft) :
    Blind i (runPieces i pieces draft) w := by
  cases pieces with
  | done =>
    rw [runPieces]
    exact .ok draft
  | cons piece rest =>
    rw [runPieces]
    exact (blind_runPiece hw piece draft).bind fun draft' => blind_runPieces hw rest draft'

/-- A script that is substituted starts with an empty register. -/
theorem blind_runPiece (hw : (w.interpreter i).Stock) (piece : Piece) (draft : Draft) :
    Blind i (runPiece i piece draft) w := by
  cases piece with
  | fail e =>
    rw [runPiece]
    exact blind_broken e
  | char c =>
    rw [runPiece]
    exact .ok _
  | var name =>
    rw [runPiece]
    exact (blind_runVar hw name none).bind fun v => .ok _
  | elem name key =>
    rw [runPiece]
    exact (blind_runPieces hw key .blank).bind fun key' =>
      (blind_runVar hw name _).bind fun v => .ok _
  | script s =>
    rw [runPiece]
    exact .inr (((overwrites_setResult _).hides w).bind _)

end

theorem blind_runWords (hw : (w.interpreter i).Stock) (words : Words) :
    Blind i (runWords i words) w := by
  fun_induction Words.texts words with
  | case1 =>
    rw [runWords]
    exact .ok []
  | case2 e =>
    rw [runWords]
    exact blind_broken e
  | case3 s rest ih =>
    rw [runWords]
    exact ih.bind fun ws => .ok _
  | case4 pieces rest ih =>
    rw [runWords]
    exact (blind_runPieces hw pieces .blank).bind fun draft => ih.bind fun ws => .ok _

/-- An invocation leaves nothing of what the register held. -/
theorem hides_invoke {words : List Value} (h : words ≠ []) :
    Hides i (Program.invoke i words) w := by
  intro v e
  rw [Scenario.ends_invoke_iff, Scenario.ends_invoke_iff]
  exact (overwrites_invokeWith _ h).hides w v e

/-- Words that come to their end have a value for each word. -/
theorem ne_nil_of_runWords {handler : Machine.Handler} {words : Words} (h : words ≠ .done)
    {w' : World} {ws : List Value} (hrun : Program.Runs handler (runWords i words) w (.ok ws) w') :
    ws ≠ [] := by
  rintro rfl
  have hlength := (hrun.always (always_runWords i words) [] rfl).1
  cases words with
  | done => exact h rfl
  | _ => cases hlength

/-- **A script that has a command does not see what the register holds at its start.** -/
theorem hides_runScript (hw : (w.interpreter i).Stock) {s : Script} (hs : s ≠ .done)
    (hfirst : ∀ words rest, s = .command words rest → words ≠ .done) :
    Hides i (runScript i s) w := by
  cases s with
  | done => exact absurd rfl hs
  | fail e =>
    rw [runScript]
    exact ((overwrites_setResult _).hides w).bind _
  | command words rest =>
    rw [runScript]
    rcases blind_runWords hw words with ⟨ws, hws⟩ | hwords
    · have hne := ne_nil_of_runWords (hfirst words rest rfl) hws.runs
      refine hws.bind_hides ?_
      dsimp only
      rw [if_neg (by simpa using hne)]
      exact (hides_invoke hne).bind _
    · exact hwords.bind _

end Register

/-! ### Two scripts and one -/

/-- Runs a text as a script. -/
def runText (i : Nat) (source : String) : Program Status := do
  resetResult i
  runScript i (Script.ofText source)

/-- An evaluation does it under a preserved interpreter. -/
example (i : Nat) (source : String) : evalScript i source = guarded i (runText i source) := rfl

section

variable {i : Nat} {s₁ s₂ : String} {w w₁ w' : World} {status : Status} {e : Ending Status}

theorem ends_runText_iff {handler : Machine.Handler} {source : String} :
    Program.Ends handler (runText i source) w e ↔
      Program.Ends handler (runScript i (Script.ofText source)) (w.withResult i .empty) e :=
  (does_setResult i .empty w).bind _ handler e

/-- Behind a script that ends with `ok` the text of another one is run as it is, with what
the first one left in the register. -/
theorem ends_runText_append_iff {handler : Machine.Handler}
    (hs : s₁.toList.getLast? ≠ some '\\') (h₁ : Program.Runs handler (runText i s₁) w .ok w₁) :
    Program.Ends handler (runText i (s₁ ++ "\n" ++ s₂)) w e ↔
      Program.Ends handler (runScript i (Script.ofText s₂)) w₁ e := by
  have hrun : Program.Runs handler _ _ _ _ := (ends_runText_iff (e := .reply .ok w₁)).1 h₁
  have hintact := hrun.always (always_runScript_intact i _) rfl
  rw [ends_runText_iff, Script.ofText_append hs hintact, runScript_append, hrun.ends_bind_iff,
    if_pos rfl]

/-- The text of a list invokes its elements. -/
theorem ends_runText_listText {ws : List String} (hws : ws ≠ []) :
    Program.Ends Scenario.handle (runText i (Word.listText ws)) w e ↔
      ∃ n, Scenario.outcome n (.invoke i (ws.map .text)) w = some e :=
  (Scenario.ends_listText_iff hws).trans
    (Scenario.ends_invoke_iff.trans (Scenario.exists_outcome_iff (.invoke i _)).symm)

/-- A text without commands does nothing but empty the register. -/
theorem makes_runText_of_done {handler : Machine.Handler} (h : Script.ofText s₂ = .done)
    {calls : List Call} : Program.Makes handler (runText i s₂) w calls status w' ↔
      calls = [] ∧ status = .ok ∧ w' = w.withResult i .empty := by
  rw [runText, h, runScript]
  exact Program.makes_modify_bind_iff.trans Program.makes_done_iff

/-- **Scripts compose.**  In an interpreter that is not deleted, has built-in commands
only and no traces, let `s₁` be a script that does not end in a backslash and that runs
from `w` to the status `ok` in `w₁`.  Then `s₁`, a line feed and `s₂` run as one script
from `w` come to an end if and only if `s₂` does from `w₁`, with the same status, commands
and variables or at the same overflow; and if `s₂` makes a call, as it does for every command
that it runs, or does not end with `ok`, then in the same world, the result register
included. -/
theorem runText_append (hs : s₁.toList.getLast? ≠ some '\\') (hw : (w.interpreter i).Stock)
    (h₁ : Program.Runs Scenario.handle (runText i s₁) w .ok w₁) (s₂ : String) :
    (∀ status, (∃ w', Program.Runs Scenario.handle (runText i (s₁ ++ "\n" ++ s₂)) w status w') ↔
      ∃ w₂, Program.Runs Scenario.handle (runText i s₂) w₁ status w₂) ∧
    (∀ o, Program.Breaks Scenario.handle (runText i (s₁ ++ "\n" ++ s₂)) w o ↔
      Program.Breaks Scenario.handle (runText i s₂) w₁ o) ∧
    ∀ status w' calls w₂,
      Program.Runs Scenario.handle (runText i (s₁ ++ "\n" ++ s₂)) w status w' →
      Program.Makes Scenario.handle (runText i s₂) w₁ calls status w₂ →
      (w'.interpreter i).commands = (w₂.interpreter i).commands ∧
        (w'.interpreter i).vars = (w₂.interpreter i).vars ∧
        (calls ≠ [] ∨ status ≠ .ok → w' = w₂) := by
  by_cases hdone : Script.ofText s₂ = .done
  · have hjoined : ∀ e, Program.Ends Scenario.handle (runText i (s₁ ++ "\n" ++ s₂)) w e ↔
        e = .reply .ok w₁ := by
      intro e
      rw [ends_runText_append_iff hs h₁, hdone, runScript]
      exact Program.ends_done_iff
    have hempty : Program.Runs Scenario.handle (runText i s₂) w₁ .ok (w₁.withResult i .empty) :=
      ((makes_runText_of_done hdone).2 ⟨rfl, rfl, rfl⟩).runs
    refine ⟨fun status => ⟨?_, ?_⟩, fun o => ?_, fun status w' calls w₂ h h₂ => ?_⟩
    · rintro ⟨w', h⟩
      obtain ⟨rfl, -⟩ := Ending.reply.inj ((hjoined (.reply status w')).1 h)
      exact ⟨_, hempty⟩
    · rintro ⟨w₂, h₂⟩
      obtain ⟨calls, h₂⟩ := Program.exists_makes_iff.2 h₂
      obtain ⟨-, rfl, -⟩ := (makes_runText_of_done hdone).1 h₂
      exact ⟨w₁, (hjoined (.reply .ok w₁)).2 rfl⟩
    · exact iff_of_false (fun h => nomatch (hjoined (.overflow o)).1 h) hempty.not_breaks
    · obtain ⟨rfl, rfl⟩ := Ending.reply.inj ((hjoined (.reply status w')).1 h)
      obtain ⟨rfl, -, rfl⟩ := (makes_runText_of_done hdone).1 h₂
      rw [World.interpreter_withResult]
      exact ⟨rfl, rfl, fun h => (h.elim (fun h => h rfl) fun h => h rfl).elim⟩
  · have hstock : (w₁.interpreter i).Stock := by
      have hrun : Program.Runs Scenario.handle _ _ _ _ :=
        (ends_runText_iff (e := .reply .ok w₁)).1 h₁
      refine Interpreter.Stock.of_runs ?_ hrun
      rw [World.interpreter_withResult]
      exact hw.congr rfl rfl rfl
    have hjoined : ∀ e, Program.Ends Scenario.handle (runText i (s₁ ++ "\n" ++ s₂)) w e ↔
        Program.Ends Scenario.handle (runText i s₂) w₁ e := by
      intro e
      rw [ends_runText_append_iff hs h₁, ends_runText_iff]
      exact (hides_runScript hstock hdone (fun _ _ h => Script.ne_done_of_readScript _ h)
        .empty e).symm
    refine ⟨fun status => exists_congr fun w' => hjoined (.reply status w'),
      fun o => hjoined (.overflow o), fun status w' calls w₂ h h₂ => ?_⟩
    obtain ⟨-, rfl⟩ := Program.Runs.unique ((hjoined (.reply status w')).1 h) h₂.runs
    exact ⟨rfl, rfl, fun _ => rfl⟩

/-- Two scripts of one command each. -/
theorem runText_append_set :
    "set x 1".toList.getLast? ≠ some '\\' ∧ (Interpreter.new 10).Stock ∧ ∃ w₁ w₂ w',
      Program.Runs Scenario.handle (runText 0 "set x 1")
        { interpreters := Pool.empty.add (.new 10) } .ok w₁ ∧
      Program.Runs Scenario.handle (runText 0 "set y 2") w₁ .ok w₂ ∧
      Program.Runs Scenario.handle (runText 0 ("set x 1" ++ "\n" ++ "set y 2"))
        { interpreters := Pool.empty.add (.new 10) } .ok w' ∧
      (w'.interpreter 0).vars.read ⟨"x", none⟩ = .ok (.text "1") ∧
      (w'.interpreter 0).vars.read ⟨"y", none⟩ = .ok (.text "2") := by
  have hs : "set x 1".toList.getLast? ≠ some '\\' := by decide
  have hruns : ∃ n w₁ w₂, Scenario.outcome n (.invoke 0 (["set", "x", "1"].map .text))
        { interpreters := Pool.empty.add (.new 10) } = some (.reply .ok w₁) ∧
      Scenario.outcome n (.invoke 0 (["set", "y", "2"].map .text)) w₁ = some (.reply .ok w₂) ∧
      (w₂.interpreter 0).vars.read ⟨"x", none⟩ = .ok (.text "1") ∧
      (w₂.interpreter 0).vars.read ⟨"y", none⟩ = .ok (.text "2") :=
    ⟨60, _, _, rfl, rfl, rfl, rfl⟩
  have hx : Word.listText ["set", "x", "1"] = "set x 1" := by decide
  have hy : Word.listText ["set", "y", "2"] = "set y 2" := by decide
  have hstock : (({ interpreters := Pool.empty.add (.new 10) } : World).interpreter 0).Stock :=
    Interpreter.stock_new 10
  obtain ⟨n, w₁, w₂, h₁, h₂, hreadx, hready⟩ := hruns
  have hrun₁ := (ends_runText_listText (by decide)).2 ⟨n, h₁⟩
  have hrun₂ := (ends_runText_listText (by decide)).2 ⟨n, h₂⟩
  rw [hx] at hrun₁
  rw [hy] at hrun₂
  obtain ⟨hends, -, hsame⟩ := runText_append hs hstock hrun₁ "set y 2"
  obtain ⟨w', hrun⟩ := (hends .ok).2 ⟨w₂, hrun₂⟩
  obtain ⟨calls, hmakes⟩ := Program.exists_makes_iff.2 hrun₂
  have hvars := (hsame .ok w' calls w₂ hrun hmakes).2.1
  rw [← hvars] at hreadx hready
  exact ⟨hs, Interpreter.stock_new 10, w₁, w₂, w', hrun₁, hrun₂, hrun, hreadx, hready⟩

end

end Interp
end CommandBridge
