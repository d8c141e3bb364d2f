/-
# Evaluating the text of a list

The text of a list of words is a script that invokes these words
(`Script.ofText_listText`), so evaluating it comes to the same end as invoking
them: with the same status, and with the same world, the result register
included.

The two evaluations differ in one point only.  A script empties the result
register before its first command, and invoking does not.  No invocation can
tell (`runs_resetResult_invoke_iff`): it either empties the register itself or
leaves a message there, before anything else looks at it.
-/

import CommandBridge.Proofs.Run.Execution
import CommandBridge.Proofs.Script.ListReading
import CommandBridge.Proofs.Script.Plain
import CommandBridge.Proofs.Value.ListText
import CommandBridge.Scenario.Dispatch

namespace CommandBridge

namespace World

/-- Of two changes to one interpreter the second sees the first. -/
theorem withInterpreter_withInterpreter (w : World) (i : Nat) (f g : Interpreter → Interpreter) :
    (w.withInterpreter i f).withInterpreter i g = w.withInterpreter i fun s => g (f s) := by
  rw [withInterpreter, interpreter_withInterpreter_self, withInterpreter, Pool.put_put]
  rfl

/-- The world with another value in the result register of an interpreter. -/
def withResult (w : World) (i : Nat) (v : Value) : World :=
  w.withInterpreter i fun s => { s with result := v }

theorem withResult_withResult (w : World) (i : Nat) (u v : Value) :
    (w.withResult i u).withResult i v = w.withResult i v :=
  withInterpreter_withInterpreter _ _ _ _

theorem interpreter_withResult (w : World) (i : Nat) (v : Value) :
    (w.withResult i v).interpreter i = { w.interpreter i with result := v } := by
  rw [withResult, interpreter_withInterpreter_self]

end World

namespace Interp

variable {handler : Machine.Handler} {i : Nat} {α β : Type}

theorem runs_setResult_iff {v : Value} {w w' : World} {a : Unit} :
    Program.Runs handler (setResult i v) w a w' ↔ w' = w.withResult i v := by
  rw [setResult, Program.modifyInterpreter, Program.modify, Program.runs_get_iff,
    Program.runs_set_iff, Program.runs_done_iff]
  exact and_iff_right rfl

theorem does_setResult (i : Nat) (v : Value) (w : World) :
    (setResult i v).Does w (pure ()) (w.withResult i v) :=
  .modifyInterpreter w i _

theorem does_fail (i : Nat) (message : String) (w : World) :
    (fail i message).Does w (pure .error) (w.withResult i (.text message)) :=
  (does_setResult i _ w).bind _

theorem ends_interpreter_bind_iff {f : Interpreter → Program α} {w : World} {e : Ending α} :
    Program.Ends handler (Program.interpreter i >>= f) w e ↔
      Program.Ends handler (f (w.interpreter i)) w e :=
  Program.ends_get_iff

theorem runs_interpreter_bind_iff {f : Interpreter → Program α} {w w' : World} {a : α} :
    Program.Runs handler (Program.interpreter i >>= f) w a w' ↔
      Program.Runs handler (f (w.interpreter i)) w a w' :=
  Program.runs_get_iff

/-- Without traces nothing fires. -/
theorem runs_fireTraces (handler : Machine.Handler) {w : World} {r : VarRef} {op flags : Flags}
    (h : (w.interpreter i).vars.tracesFor r op = []) :
    Program.Runs handler (fireTraces i r op flags) w none w := by
  rw [fireTraces, runs_interpreter_bind_iff]
  dsimp only
  rw [h, if_pos (by simp)]
  exact .done _ _

/-- A program that does not see what the result register holds at its start, and
leaves nothing of it. -/
def Overwrites (i : Nat) (p : Program α) : Prop :=
  ∀ (v : Value) (w : World), p.Does (w.withResult i v) p w

theorem overwrites_setResult (v : Value) : Overwrites i (setResult i v) := by
  intro u w
  have h := does_setResult i v (w.withResult i u)
  rw [World.withResult_withResult] at h
  exact h.trans (does_setResult i v w).symm

theorem Overwrites.bind {p : Program α} (h : Overwrites i p) (f : α → Program β) :
    Overwrites i (p >>= f) :=
  fun v w => (h v w).bind_congr f

/-- An invocation leaves a message in the register or empties it, before
anything else looks at it. -/
theorem overwrites_invokeWith (perform : Nat → Procedure → List Value → Program Status)
    {words : List Value} (h : words ≠ []) : Overwrites i (invokeWith perform i words) := by
  obtain ⟨first, rest, rfl⟩ := List.exists_cons_of_ne_nil h
  intro v w handler e
  rw [invokeWith, ends_interpreter_bind_iff, ends_interpreter_bind_iff,
    World.interpreter_withResult]
  dsimp only
  split_ifs with hd
  · exact (overwrites_setResult _).bind _ v w handler e
  · split
    · exact (overwrites_setResult _).bind _ v w handler e
    · exact (overwrites_setResult _).bind _ v w handler e

/-- The script that a list of words spells invokes the words. -/
theorem runScript_listText (i : Nat) {ws : List String} (hws : ws ≠ []) :
    runScript i (Script.ofText (Word.listText ws)) = Program.invoke i (ws.map .text) := by
  obtain ⟨words, hs, ht⟩ := Script.ofText_listText hws
  have hne : (ws.map Value.text).isEmpty = false := by simpa using hws
  rw [hs, runScript, runWords_of_texts i ht, pure_bind]
  dsimp only
  rw [hne, if_neg Bool.false_ne_true]
  refine (bind_congr fun status => ?_).trans (bind_pure _)
  cases status with
  | ok => rw [runScript]
  | error | returned => rfl

/-- Evaluations under a preserved interpreter are alike if their bodies are. -/
theorem ends_guarded_congr {p q : Program Status}
    (h : ∀ w e, Program.Ends handler p w e ↔ Program.Ends handler q w e) {w : World}
    {e : Ending Status} :
    Program.Ends handler (guarded i p) w e ↔ Program.Ends handler (guarded i q) w e := by
  rw [guarded, guarded, ends_interpreter_bind_iff, ends_interpreter_bind_iff]
  split_ifs with hd
  · exact Iff.rfl
  · rw [Program.ends_bind_iff, Program.ends_bind_iff]
    refine or_congr_right (exists_congr fun _ => exists_congr fun w₁ => and_congr_right fun _ => ?_)
    exact Program.ends_bind_congr (h w₁) _

end Interp

theorem Builtin.does_answer (i : Nat) (v : Value) (w : World) :
    (Builtin.answer i v).Does w (pure .ok) (w.withResult i v) :=
  (Interp.does_setResult i v w).bind _

namespace Scenario

theorem exists_outcome_iff (c : Call) {w : World} {e : Ending c.Reply} :
    (∃ n, outcome n c w = some e) ↔ Program.Ends handle (handle c) w e :=
  Machine.exists_run_iff

theorem ends_invoke_iff {i : Nat} {words : List Value} {w : World} {e : Ending Status} :
    Program.Ends handle (Program.invoke i words) w e ↔
      Program.Ends handle (Interp.invokeWith perform i words) w e :=
  Program.ends_request_iff

/-- The body of the evaluation does what the invocation does. -/
theorem ends_listText_iff {i : Nat} {ws : List String} (hws : ws ≠ []) {w : World}
    {e : Ending Status} :
    Program.Ends handle (Interp.resetResult i >>= fun _ =>
        Interp.runScript i (Script.ofText (Word.listText ws))) w e ↔
      Program.Ends handle (Program.invoke i (ws.map .text)) w e := by
  have hne : ws.map Value.text ≠ [] := by simpa using hws
  rw [Interp.runScript_listText i hws]
  refine ((Interp.does_setResult i .empty w).bind _ handle e).trans ?_
  rw [ends_invoke_iff, ends_invoke_iff]
  exact Interp.overwrites_invokeWith perform hne .empty w handle e

/-- **Evaluating the text of a list is invoking its elements.**  The text is a
script of one command, and the words of the command are the elements as they
are: none is substituted, split or left out.  From every world the evaluation of
the text ends as the invocation of the words does, with the same status in the
same world or at the same overflow, or neither ends. -/
theorem outcome_eval_list_iff (i : Nat) {ws : List String} (hws : ws ≠ []) :
    (∃ words, Script.ofText (Value.list (ws.map .text)).str = .command words .done ∧
      words.texts = ws.map some) ∧
    ∀ (w : World) (e : Ending Status),
      (∃ n, outcome n (.eval i (Value.list (ws.map .text)).str) w = some e) ↔
        ∃ n, outcome n (.evalWords i (ws.map .text)) w = some e := by
  rw [Value.str_list_text]
  refine ⟨Script.ofText_listText hws, fun w e => ?_⟩
  have hbody : Program.Ends handle (Interp.evalScript i (Word.listText ws)) w e ↔
      Program.Ends handle (Interp.evalWords i (ws.map .text)) w e :=
    Interp.ends_guarded_congr fun _ _ => ends_listText_iff hws
  exact (exists_outcome_iff (.eval i (Word.listText ws))).trans
    (hbody.trans (exists_outcome_iff (.evalWords i _)).symm)

/-- A script stores a text full of special characters as it is. -/
theorem outcome_eval_set_specials :
    ["set", "#x", "[a]; $b \\\x7b"] ≠ [] ∧ ∃ n w',
      outcome n (.eval 0 (Value.list (["set", "#x", "[a]; $b \\\x7b"].map .text)).str)
        { interpreters := Pool.empty.add (.new 10) } = some (.reply .ok w') ∧
      (w'.interpreter 0).result = .text "[a]; $b \\\x7b" := by
  refine ⟨by decide, ?_⟩
  have hset : ∃ n w', outcome n (.evalWords 0 (["set", "#x", "[a]; $b \\\x7b"].map .text))
      { interpreters := Pool.empty.add (.new 10) } = some (.reply .ok w') ∧
      (w'.interpreter 0).result = .text "[a]; $b \\\x7b" := ⟨60, _, rfl, rfl⟩
  obtain ⟨n, w', hn, hr⟩ := hset
  obtain ⟨m, hm⟩ := ((outcome_eval_list_iff 0 (by decide)).2 _ (.reply .ok w')).2 ⟨n, hn⟩
  exact ⟨m, w', hm, hr⟩

end Scenario
end CommandBridge
