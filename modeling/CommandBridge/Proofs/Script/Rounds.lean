/-
# The rounds of an evaluation

The evaluator has three loops: over the commands of a script, over the words of a command
and over the pieces of a word.  A round of each starts at a character and is a stage of
its own (`Interleaved.nextCommand`, `Interleaved.word`, `Interleaved.piece`), and a loop is a
round and the loop behind it (`Interleaved.script_eq_nextCommand`).  A round leaves less to
those behind it than it had itself (`Interleaved.Rest.length_lt`), whatever it has met with.

A round is made of the operations of its interpreter, so it has the properties that these
have (`Program.BasicOn.nextCommand`, `Program.BasicOn.word`, `Program.BasicOn.piece`).
-/

import CommandBridge.Proofs.Interpreter.Conduct
import CommandBridge.Proofs.Script.OnePass

namespace CommandBridge
namespace Interleaved

/-- One round of the loop over commands: behind the separators it skips a comment or
evaluates the words of a command and invokes them. -/
def nextCommand (i : Nat) (nested : Bool) (c : Char) (r : List Char) : Stage Unit r.length :=
  if c == '#' then return ((), ⟨Script.skipComment r, Script.length_skipComment_le r⟩)
  else do
    let (words, rest) ← command i nested c r
    obey i words
    return ((), rest)

/-- The loop over commands is a round and the loop behind it, unless a closing bracket ends
it. -/
theorem script_eq_nextCommand (i : Nat) {nested : Bool} {cs r : List Char} {c : Char}
    (h : Script.skipSeparators cs = c :: r) (hc : (nested && c == ']') = false) :
    ∃ hr : r.length ≤ cs.length, script i nested cs = do
      let (_, behind) ← nextCommand i nested c r
      let (_, rest) ← script i nested behind.1
      return ((), rest.widen (Nat.le_trans behind.2 hr)) := by
  have hs := Script.length_skipSeparators_le cs
  rw [h] at hs
  refine ⟨Nat.le_of_lt hs, ?_⟩
  rw [script]
  split
  · rename_i hnil
    rw [h] at hnil
    cases hnil
  · rename_i c' r' hcons
    rw [h] at hcons
    obtain ⟨rfl, rfl⟩ := List.cons.inj hcons
    rw [if_neg (by rw [hc]; exact Bool.false_ne_true), nextCommand]
    split
    · rw [pure_bind]
    · rw [bind_assoc]
      refine bind_congr fun _ => ?_
      rw [bind_assoc]
      refine bind_congr fun _ => ?_
      rw [pure_bind]

/-! ### What a round reads -/

/-- A stage that comes to its end leaves the end of the characters. -/
def Reads {α : Type} {n : Nat} (x : Stage α n) (cs : List Char) : Prop :=
  Program.Always (fun result => ∀ a (rest : Rest n), result = .ok (a, rest) → rest.1 <:+ cs) x.run

section Reads

variable {i m n : Nat} {cs ds : List Char} {α β : Type}

theorem Reads.bind {x : Stage β m} {f : β × Rest m → Stage α n} (hx : Reads x cs)
    (hf : ∀ b (rest : Rest m), rest.1 <:+ cs → Reads (f (b, rest)) ds) : Reads (x >>= f) ds := by
  refine Program.Always.bind (p := x.run) hx fun r hr => ?_
  cases r with
  | ok p => exact hf p.1 p.2 (hr _ _ rfl)
  | error status => exact nofun

end Reads

end Interleaved

namespace Program

variable {Ok : Property} {α β : Type}

theorem Sequential.run_bind (h : Sequential Ok) {x : ExceptT Status Program α}
    {f : α → ExceptT Status Program β} (hx : Ok x.run) (hf : ∀ a, Ok (f a).run) :
    Ok (x >>= f).run := by
  refine h.bind hx fun r => ?_
  cases r with
  | ok a => exact hf a
  | error status => exact h.pure _

theorem Sequential.run_pure (h : Sequential Ok) (a : α) :
    Ok (Pure.pure a : ExceptT Status Program α).run :=
  h.pure _

/-- A stage that reads a tree and runs it has the property if running a tree has it. -/
theorem Sequential.settle (h : Sequential Ok) {τ : Type} {n : Nat} (t : Script.Reading τ n)
    {run : τ → ExceptT Status Program α} (hrun : ∀ t, Ok (run t).run) :
    Ok (Interleaved.settle t run).run :=
  h.run_bind (hrun _) fun _ => h.run_pure _

namespace BasicOn

variable {i : Nat}

theorem piece (h : BasicOn i Ok) (c : Char) (r : List Char) (draft : Draft) :
    Ok (Interleaved.piece i c r draft).run := by
  rw [Interleaved.piece_eq]
  exact h.settle _ fun t => h.runPiece t draft

theorem pieces (h : BasicOn i Ok) (context : Script.Context) (cs : List Char) (draft : Draft) :
    Ok (Interleaved.pieces i context cs draft).run := by
  rw [Interleaved.pieces_eq]
  exact h.settle _ fun t => h.runPieces t draft

theorem command (h : BasicOn i Ok) (nested : Bool) (c : Char) (r : List Char) :
    Ok (Interleaved.command i nested c r).run := by
  rw [Interleaved.command_eq]
  exact h.settle _ h.runWords

theorem word (h : BasicOn i Ok) (nested : Bool) (c : Char) (r : List Char) :
    Ok (Interleaved.word i nested c r).run := by
  rw [Interleaved.word]
  split
  · split
    · exact h.broken _
    · split
      · exact h.run_pure _
      · exact h.broken _
  · split
    · refine h.run_bind (h.pieces ..) fun _ => ?_
      dsimp only
      split
      · exact h.run_pure _
      · exact h.broken _
    · exact h.run_bind (h.piece ..) fun _ => h.run_bind (h.pieces ..) fun _ => h.run_pure _

theorem obey (h : BasicOn i Ok) (words : List Value) : Ok (Interleaved.obey i words).run := by
  unfold Interleaved.obey
  split
  · exact h.run_pure _
  · refine h.bind (h.invoke words) fun status => ?_
    split <;> exact h.pure _

theorem nextCommand (h : BasicOn i Ok) (nested : Bool) (c : Char) (r : List Char) :
    Ok (Interleaved.nextCommand i nested c r).run := by
  unfold Interleaved.nextCommand
  split
  · exact h.run_pure _
  · exact h.run_bind (h.command ..) fun _ => h.run_bind (h.obey _) fun _ => h.run_pure _

end BasicOn
end Program
end CommandBridge
