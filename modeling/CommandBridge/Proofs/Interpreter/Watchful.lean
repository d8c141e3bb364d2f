/-
# Properties that see variables

A property of the variables of interpreters, of the traces that are firing and of the
functions of handles is kept by everything that leaves these alone (`World.Steady`):
commands, guards, bundles and uses are of no account to it.  So of the operations those on
variables are left, the delete procedures and the disposals (`Watchful`), and with these
such a property is one of all programs (`Watchful.conduct`, `Watchful.handle`).
-/

import CommandBridge.Proofs.Interpreter.Coarse
import CommandBridge.Proofs.Scenario.Conduct

namespace CommandBridge

/-- The interpreters of the two worlds have the same variables, the same traces are firing
and the same of them have been disposed of, and their handles have the same functions. -/
structure World.Steady (w w' : World) : Prop where
  vars : ∀ i, (w'.interpreter i).vars = (w.interpreter i).vars
  active : ∀ i, (w'.interpreter i).active = (w.interpreter i).active
  disposed : ∀ i, (w'.interpreter i).disposed = (w.interpreter i).disposed
  functions : ∀ h, (w'.handle h).functions = (w.handle h).functions

namespace World

theorem steady_of_spare {w w' : World} (hi : w'.interpreters = w.interpreters)
    (hh : w'.handles = w.handles) : w.Steady w' := by
  have hsame := interpreter_congr hi
  exact ⟨fun i => by rw [hsame], fun i => by rw [hsame], fun i => by rw [hsame],
    fun h => congrArg (fun hs => (Pool.get hs h).functions) hh⟩

theorem Aside.steady {w w' : World} (h : w.Aside w') : w.Steady w' :=
  steady_of_spare h.interpreters h.handles

theorem steady_withInterpreter (w : World) (i : Nat) {f : Interpreter → Interpreter}
    (hv : (f (w.interpreter i)).vars = (w.interpreter i).vars)
    (ha : (f (w.interpreter i)).active = (w.interpreter i).active)
    (hd : (f (w.interpreter i)).disposed = (w.interpreter i).disposed) :
    w.Steady (w.withInterpreter i f) :=
  ⟨apply_withInterpreter (·.vars) hv, apply_withInterpreter (·.active) ha,
    apply_withInterpreter (·.disposed) hd, fun _ => rfl⟩

theorem steady_withHandle (w : World) (h : Nat) {f : Handle → Handle}
    (hf : (f (w.handle h)).functions = (w.handle h).functions) :
    w.Steady (w.withHandle h f) := by
  refine ⟨fun _ => rfl, fun _ => rfl, fun _ => rfl, fun h' => ?_⟩
  rw [handle, withHandle, Pool.get_put]
  split
  · subst h'
    exact hf
  · rfl

/-- A new interpreter has no variables. -/
theorem steady_addInterpreter (w : World) (maxNesting : Nat) :
    w.Steady { w with interpreters := w.interpreters.add (.new maxNesting) } := by
  have hadd := w.interpreter_add (.new maxNesting)
  refine ⟨fun i => ?_, fun i => ?_, fun i => ?_, fun _ => rfl⟩ <;> rw [hadd] <;> split
  all_goals first | rfl | (subst i; rw [w.interpreter_next]; rfl)

/-- A new handle has no functions. -/
theorem steady_addHandle (w : World) (i : Nat) (s : Settings) :
    w.Steady { w with handles := w.handles.add { interpreter := i, settings := s } } := by
  refine ⟨fun _ => rfl, fun _ => rfl, fun _ => rfl, fun h => ?_⟩
  rw [handle, handle, Pool.get, Pool.get?_add]
  split
  · subst h
    rw [Pool.get, Pool.get?_of_next_le (Nat.le_refl _)]
    rfl
  · rfl

end World

namespace Program

/-- A property that sequences keep and that sees variables and functions only. -/
structure Watchful (Ok : Property) : Prop extends Sequential Ok where
  overflow {α : Type} (o : Integer.Overflow) : Ok (.overflow o : Program α)
  update {α : Type} {f : World → α × World} (hf : ∀ w : World, w.Steady (f w).2) :
    Ok (Program.update f)
  request {c : Call} (hc : c.IsOperation) : Ok (Program.request c)
  runDelete (i : Nat) (action : Option DeleteAction) : Ok (Interp.runDelete i action)
  dispose (i : Nat) : Ok (Interp.dispose i)
  fireTraces (i : Nat) (r : VarRef) {op : Flags} (hop : op.IsAccess) (flags : Flags) :
    Ok (Interp.fireTraces i r op flags)
  store (i : Nat) (r : VarRef) (v : Value) (flags : Flags) : Ok (Interp.store i r v flags)
  unset (i : Nat) (name : String) (key : Option String) (flags : Flags) :
    Ok (Interp.unset i name key flags)
  register (handle : Nat) (name : String) (function : Nat)
    (hcreate : ∀ i, Ok (Interp.createCommand i name (Bridge.registeredCommand handle name))) :
    Ok (Bridge.register handle name function)
  traceVar (handle : Nat) (name : String) (key : Option String) (flags : Flags) (function : Nat) :
    Ok (Bridge.traceVar handle name key flags function)
  untraceVar (handle : Nat) (name : String) (key : Option String) (flags : Flags)
    (function : Nat) : Ok (Bridge.untraceVar handle name key flags function)

namespace Watchful

variable {Ok : Property} {i : Nat}

theorem modifyInterpreter (h : Watchful Ok) (i : Nat) {f : Interpreter → Interpreter}
    (hf : ∀ s, (f s).vars = s.vars ∧ (f s).active = s.active ∧ (f s).disposed = s.disposed) :
    Ok (Program.modifyInterpreter i f) :=
  h.update (f := fun w => ((), w.withInterpreter i f)) fun w =>
    w.steady_withInterpreter i (hf _).1 (hf _).2.1 (hf _).2.2

theorem plain (h : Watchful Ok) (i : Nat) {f : Interpreter → Interpreter}
    (hf : Interpreter.Plain f) : Ok (Program.modifyInterpreter i f) :=
  h.modifyInterpreter i fun s => ⟨(hf.tables s).2.1, (hf.tables s).2.2, (hf.lifetime s).2.2⟩

theorem setResult (h : Watchful Ok) (i : Nat) (v : Value) : Ok (Interp.setResult i v) :=
  h.modifyInterpreter i fun _ => ⟨rfl, rfl, rfl⟩

theorem fail (h : Watchful Ok) (i : Nat) (message : String) : Ok (Interp.fail i message) :=
  h.bind (h.setResult i _) fun _ => h.pure _

theorem unheld (h : Watchful Ok) : Unheld Ok where
  toSequential := h.toSequential
  spare hf := h.update fun w => World.steady_of_spare (hf w).1 (hf w).2
  withPreserved i _ := h.modifyInterpreter i fun _ => ⟨rfl, rfl, rfl⟩

theorem release (h : Watchful Ok) (i : Nat) : Ok (Interp.release i) :=
  h.unheld.release (h.dispose i)

theorem delete (h : Watchful Ok) (i : Nat) : Ok (Interp.delete i) :=
  h.toSequential.delete (h.modifyInterpreter i fun _ => ⟨rfl, rfl, rfl⟩) (h.dispose i)

theorem destroy (h : Watchful Ok) (handle : Nat) : Ok (Bridge.destroy handle) :=
  h.toSequential.destroy
    (h.update (f := fun w => ((), w.withHandle handle fun h => { h with destroyed := true }))
      fun w => w.steady_withHandle handle (f := fun h => { h with destroyed := true }) rfl) h.delete

theorem takeCommand (h : Watchful Ok) (i : Nat) (name : String) :
    Ok (Interp.takeCommand i name) :=
  h.update fun w => w.steady_withInterpreter i
    (f := fun s => { s with commands := s.commands.erase name }) rfl rfl rfl

theorem putCommand (h : Watchful Ok) (i : Nat) (name : String) (c : Command) :
    Ok (Interp.putCommand i name c) :=
  h.modifyInterpreter i fun _ => ⟨rfl, rfl, rfl⟩

theorem createCommand (h : Watchful Ok) (i : Nat) (name : String) (c : Command) :
    Ok (Interp.createCommand i name c) :=
  h.toSequential.createCommand (h.takeCommand i name) (fun _ => h.runDelete i _)
    (h.putCommand i name c)

theorem deleteCommand (h : Watchful Ok) (i : Nat) (name : String) :
    Ok (Interp.deleteCommand i name) :=
  h.toSequential.deleteCommand (h.takeCommand i name) fun _ => h.runDelete i _

theorem renameCommand (h : Watchful Ok) (i : Nat) (old new : String) :
    Ok (Interp.renameCommand i old new) :=
  h.toSequential.renameCommand (h.fail i) (h.takeCommand i old) (h.deleteCommand i old)
    (h.putCommand i new)

/-- The property is one of all programs but those of the delete procedures, of the traces
and of the evaluations. -/
theorem conduct (h : Watchful Ok) : Conduct Ok where
  toSequential := h.toSequential
  overflow := h.overflow
  setResult := h.setResult
  fireTraces i r _ hop := h.fireTraces i r hop
  invoke _ _ := h.request trivial
  update hf := h.update fun w => (hf w).steady
  request := h.request
  modifyInterpreter i _ hf := h.plain i hf
  store := h.store
  unset := h.unset
  createCommand i name c _ := h.createCommand i name c
  deleteCommand := h.deleteCommand
  delete := h.delete
  buildBundle := h.unheld.buildBundle
  teardown := h.unheld.teardown h.release
  addInterpreter n := h.update fun w => w.steady_addInterpreter n
  addHandle i s := h.update fun w => w.steady_addHandle i s
  destroy := h.destroy
  register handle name function := h.register handle name function fun i =>
    h.createCommand i name _
  traceVar := h.traceVar
  untraceVar := h.untraceVar

theorem guarded (h : Watchful Ok) {body : Program Status} (hbody : Ok body) :
    Ok (Interp.guarded i body) :=
  h.unheld.guarded (h.fail i) (h.release i) hbody

/-- Every step of an interpreter scenario has a property that the operations have and that
traces have which are installed and removed without the bridge. -/
theorem runStep (h : Watchful Ok) {step : InterpreterStep}
    (hadd : (Call.interpreterStep i step).tracing? = some i →
      ∀ name key t, Ok (Interp.addTrace i name key t))
    (hremove : ∀ name key flags client, Ok (Interp.removeTrace i name key flags client)) :
    Ok (Scenario.runStep i step) :=
  h.conduct.runStep i step (fun old new _ => h.renameCommand i old new)
    (fun name key _ _ _ _ _ hstep => hadd (hstep ▸ rfl) name key) hremove
    (h.unheld.addGuard i) (h.unheld.dropGuard h.release)
    (fun _ => h.unheld.withPreserved i (· + 1)) fun _ => h.release i

/-- **Every call has a property that the operations have**, as far as traces, delete
procedures and steps of interpreter scenarios have it. -/
theorem handle (h : Watchful Ok) {c : Call}
    (hstep : ∀ i step, c = .interpreterStep i step → Ok (Scenario.runStep i step))
    (hfire : ∀ i t r flags later, c = .fire i t r flags later →
      Ok (Scenario.fireTrace i t r flags))
    (hforget : ∀ i handle key, c = .deleted i (.forget handle key) →
      Ok (Bridge.forgetFunction handle key)) : Ok (Scenario.handle c) := by
  have hc := h.conduct
  cases c with
  | eval i script => exact h.guarded (h.bind (h.setResult i _) fun _ => hc.runScript i _)
  | evalWords i words => exact h.guarded (h.request (c := .invoke i words) trivial)
  | invoke i words =>
    have hcount : ∀ f : Nat → Nat,
        Ok (Program.modifyInterpreter i fun s => { s with depth := f s.depth }) := fun f =>
      h.modifyInterpreter i fun _ => ⟨rfl, rfl, rfl⟩
    exact hc.invokeWith (hc.performProcedure hc.callHost h.renameCommand) i (hcount (· + 1))
      (hcount (· - 1)) words
  | fire i t r flags later => exact hfire i t r flags later rfl
  | deleted i action =>
    cases action with
    | forget handle key => exact hforget i handle key rfl
    | scripted label body => exact hc.runDeleted i label body
  | host f args => exact hc.callValue f args
  | interpreterStep i step => exact hstep i step rfl
  | bridgeStep step => exact hc.runBridgeStep step

end Watchful

end Program
end CommandBridge
