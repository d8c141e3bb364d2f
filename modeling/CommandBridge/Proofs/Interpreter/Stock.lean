/-
# Interpreters without commands of a host

An interpreter that is not deleted, has no commands but the built-in ones and no traces
(`Interpreter.Stock`) keeps to itself: whatever it evaluates calls nothing but its own
evaluations and invocations, and it stays as it is in all of this
(`Interpreter.Stock.of_runs`).  A built-in command may be renamed and deleted, which runs
no delete procedure; none of them makes a command, installs a trace or deletes an
interpreter.
-/

import CommandBridge.Proofs.Interpreter.Bare
import CommandBridge.Proofs.Run.CallLog
import CommandBridge.Scenario.Dispatch

namespace CommandBridge

/-- The interpreter is not deleted, its commands are built-in ones that have no delete
procedures, and no variable is traced. -/
structure Interpreter.Stock (s : Interpreter) : Prop where
  live : s.deleted = false
  builtin {name : String} {c : Command} (h : s.commands[name]? = some c) :
    ∃ b, c = { procedure := .builtin b }
  untraced (r : VarRef) : s.vars.tracesOn r = []

namespace Interpreter

/-- A new interpreter has the built-in commands only. -/
theorem stock_new (maxNesting : Nat) : (Interpreter.new maxNesting).Stock where
  live := rfl
  untraced := Variables.tracesOn_empty
  builtin := builtin_of_builtinCommands

namespace Stock

variable {s : Interpreter}

theorem bare (h : s.Stock) : s.Bare where
  builtin := h.builtin
  untraced := h.untraced

theorem of_bare (h : s.Bare) (hlive : s.deleted = false) : s.Stock where
  live := hlive
  builtin := h.builtin
  untraced := h.untraced

theorem tracesFor_eq (h : s.Stock) (r : VarRef) (op : Flags) : s.vars.tracesFor r op = [] :=
  h.bare.tracesFor_eq r op

/-- Anything but the life, the commands and the variables may change. -/
theorem congr (h : s.Stock) {s' : Interpreter} (hd : s'.deleted = s.deleted)
    (hc : s'.commands = s.commands) (hv : s'.vars = s.vars) : s'.Stock :=
  of_bare (h.bare.congr hc hv) (hd.trans h.live)

end Stock
end Interpreter

/-- The calls that evaluate or invoke something in an interpreter. -/
def Call.IsOwn (i : Nat) : Call → Prop
  | .eval j _ => j = i
  | .evalWords j _ => j = i
  | .invoke j _ => j = i
  | _ => False

namespace Stock

variable {i : Nat} {cs : List Call} {c : Call} {α : Type}

/-- An interpreter that keeps to itself makes its own calls only, and every one of them
leaves it so. -/
def contract (i : Nat) : Contract {} where
  Pre _ c w := c.IsOwn i ∧ (w.interpreter i).Stock
  Post _ _ _ w' := (w'.interpreter i).Stock
  Change _ w' _ _ := (w'.interpreter i).Stock
  change_bind _ h := h

/-- Programs that keep the interpreter to itself. -/
abbrev Keeping (i : Nat) (cs : List Call) (c : Call) : Program.Property :=
  fun _ p => p.Keeps (contract i) cs c fun w => (w.interpreter i).Stock

theorem upkeep (i : Nat) : Interpreter.Upkeep i fun w => (w.interpreter i).Stock where
  bare hw := hw.bare
  aside hw ha := by rwa [World.interpreter_congr ha.interpreters]
  change hw hbare _ _ hdeleted := by
    rw [World.interpreter_withInterpreter_self]
    exact .of_bare hbare (hdeleted.trans hw.live)

theorem under : Program.Under (fun w => (w.interpreter i).Stock) (Keeping i cs c) where
  pure _ := .pure _
  bind hp hf := .bind hp hf
  get hk := .get fun w _ => hk w
  reading hk := .reading hk
  updating hk w hw := Program.meets_update_iff.2 fun _ => ⟨(hk w hw).1, (hk w hw).2 _ (hk w hw).1⟩

theorem keeping_modifyInterpreter {f : Interpreter → Interpreter}
    (hf : ∀ s : Interpreter, s.Stock → (f s).Stock) :
    Keeping i cs c (Program.modifyInterpreter i f) :=
  under.modifyInterpreter fun w hw => by
    rw [World.interpreter_withInterpreter_self]
    exact hf _ hw

theorem keeping_request {d : Call} (hd : d.IsOwn i) : Keeping i cs c (Program.request d) :=
  .request fun _ hw _ => ⟨⟨hd, hw⟩, fun _ hw' => hw'⟩

theorem basicOn : Program.BasicOn i (Keeping i cs c) :=
  under.basicOn (upkeep i) fun _ => keeping_request rfl

theorem domesticOn : Program.DomesticOn i (Keeping i cs c) :=
  under.domesticOn (upkeep i) (fun _ => keeping_request rfl) fun _ => keeping_request rfl

/-- What is invoked is a built-in command. -/
theorem keeping_invokeWith (words : List Value) :
    Keeping i cs c (Interp.invokeWith Scenario.perform i words) := by
  have hcount : ∀ f : Nat → Nat, Keeping i cs c
      (Program.modifyInterpreter i fun s => { s with depth := f s.depth }) := fun f =>
    keeping_modifyInterpreter fun _ hs => hs.congr rfl rfl rfl
  unfold Interp.invokeWith
  split
  · exact under.pure _
  · refine Program.Keeps.reading fun w hw => ?_
    split
    · exact basicOn.fail _
    · split
      · exact basicOn.fail _
      · rename_i hc
        obtain ⟨b, rfl⟩ := hw.builtin hc
        exact under.bind (under.setResult (upkeep i) _) fun _ =>
          under.bind (hcount (· + 1)) fun _ =>
            under.bind
              (domesticOn.runBuiltin b (under.renameCommand (upkeep i)) _ fun _ _ _ _ => trivial) fun _ =>
              under.bind (hcount (· - 1)) fun _ => under.pure _

/-- The end of a use takes nothing down. -/
theorem keeping_release : Keeping i cs c (Interp.release i) := by
  refine under.bind (keeping_modifyInterpreter fun _ hs => hs.congr rfl rfl rfl) fun _ => ?_
  refine Program.Keeps.reading fun w hw => ?_
  rw [if_neg fun h => Bool.false_ne_true (hw.live.symm.trans h.2)]
  exact under.pure _

theorem keeping_guarded {body : Program Status} (hbody : Keeping i cs c body) :
    Keeping i cs c (Interp.guarded i body) := by
  refine under.bind (under.interpreter i) fun s => ?_
  split
  · exact basicOn.fail _
  · refine under.bind (keeping_modifyInterpreter fun _ hs => hs.congr rfl rfl rfl) fun _ => ?_
    exact under.bind hbody fun _ => under.bind (under.interpreter i) fun _ =>
      under.bind keeping_release fun _ => under.pure _

/-- Every call of the interpreter keeps it to itself. -/
theorem holds (i : Nat) : (contract i).Holds Scenario.handle := by
  rintro cs c w - ⟨hown, hw⟩
  have hcall : Keeping i cs c (Scenario.handle c) := by
    cases c with
    | eval j script =>
      obtain rfl : j = i := hown
      exact keeping_guarded (under.bind (under.setResult (upkeep j) _) fun _ =>
        basicOn.runScript _)
    | evalWords j words =>
      obtain rfl : j = i := hown
      exact keeping_guarded (keeping_request rfl)
    | invoke j words =>
      obtain rfl : j = i := hown
      exact keeping_invokeWith words
    | _ => exact hown.elim
  exact hcall w hw

end Stock

/-- **An interpreter with built-in commands and without traces stays so**, whatever
script it runs to an end. -/
theorem Interpreter.Stock.of_runs {i : Nat} {w w' : World} (hw : (w.interpreter i).Stock)
    {script : Script} {status : Status}
    (h : Program.Runs Scenario.handle (Interp.runScript i script) w status w') :
    (w'.interpreter i).Stock := by
  obtain ⟨cs, hmakes⟩ := Program.exists_makes_iff.2 h
  have hkeep : Stock.Keeping i [] (.eval i "") (Interp.runScript i script) :=
    Stock.basicOn.runScript script
  exact (hmakes.meets (Stock.holds i) (hkeep w hw)).1

end CommandBridge
