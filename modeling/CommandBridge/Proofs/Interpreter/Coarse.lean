/-
# Properties that do not see everything

Many properties of the world say nothing about the variables of interpreters, about
their traces and results.  What only changes these (`World.Alike`) keeps such a
property, so for the operations on variables nothing is left to show but that it is
kept by the traces that they fire (`Coarse.fireTraces`, `Coarse.unset`), for traces of
the bridge that it is kept by what becomes of their functions (`Coarse.traceVar`,
`Coarse.untraceVar`), and for a disposal that it is kept by what becomes of the commands
(`Coarse.takeDown`).

Others say nothing about who uses an interpreter (`Unheld`).  Guards, bundles and
evaluations keep them if a disposal does.
-/

import CommandBridge.Proofs.Interpreter.Conduct

namespace CommandBridge

/-- The two worlds have the same handles, bundles and guards, and their interpreters
have the same commands and are at the same point of their life. -/
structure World.Alike (w w' : World) : Prop where
  commands : ∀ i, (w'.interpreter i).commands = (w.interpreter i).commands
  preserved : ∀ i, (w'.interpreter i).preserved = (w.interpreter i).preserved
  deleted : ∀ i, (w'.interpreter i).deleted = (w.interpreter i).deleted
  disposed : ∀ i, (w'.interpreter i).disposed = (w.interpreter i).disposed
  handles : w'.handles = w.handles
  bundles : w'.bundles = w.bundles
  guards : w'.bench.guards = w.bench.guards

namespace World

theorem Alike.refl (w : World) : w.Alike w :=
  ⟨fun _ => rfl, fun _ => rfl, fun _ => rfl, fun _ => rfl, rfl, rfl, rfl⟩

theorem Aside.alike {w w' : World} (h : w.Aside w') : w.Alike w' := by
  have hi := interpreter_congr h.interpreters
  exact ⟨fun i => by rw [hi], fun i => by rw [hi], fun i => by rw [hi], fun i => by rw [hi],
    h.handles, h.bundles, h.guards⟩

/-- There is nothing yet where the next interpreter goes. -/
theorem interpreter_next (w : World) : w.interpreter w.interpreters.next = {} := by
  rw [interpreter, Pool.get, Pool.get?_of_next_le (Nat.le_refl _)]
  rfl

theorem interpreter_add (w : World) (s : Interpreter) (i : Nat) :
    interpreter { w with interpreters := w.interpreters.add s } i =
      if w.interpreters.next = i then s else w.interpreter i := by
  rw [interpreter, Pool.get, Pool.get?_add]
  split <;> rfl

theorem interpreter_bridged (n i : Nat) :
    (World.bridged n).interpreter i = if 0 = i then .new n else {} :=
  interpreter_add {} _ i

theorem vars_bridged (n i : Nat) : ((World.bridged n).interpreter i).vars = ∅ := by
  rw [interpreter_bridged]
  split <;> rfl

/-- What a change of an interpreter leaves alone is the same in all interpreters. -/
theorem apply_withInterpreter {β : Type} (g : Interpreter → β) {w : World} {i : Nat}
    {f : Interpreter → Interpreter} (h : g (f (w.interpreter i)) = g (w.interpreter i)) (j : Nat) :
    g ((w.withInterpreter i f).interpreter j) = g (w.interpreter j) := by
  rw [interpreter_withInterpreter]
  split
  · subst j
    exact h
  · rfl

/-- A change of an interpreter that leaves its commands and its life alone. -/
theorem alike_withInterpreter (w : World) (j : Nat) {f : Interpreter → Interpreter}
    (hf : (f (w.interpreter j)).commands = (w.interpreter j).commands ∧
      (f (w.interpreter j)).preserved = (w.interpreter j).preserved ∧
      (f (w.interpreter j)).deleted = (w.interpreter j).deleted ∧
      (f (w.interpreter j)).disposed = (w.interpreter j).disposed) :
    w.Alike (w.withInterpreter j f) :=
  ⟨apply_withInterpreter (·.commands) hf.1, apply_withInterpreter (·.preserved) hf.2.1,
    apply_withInterpreter (·.deleted) hf.2.2.1, apply_withInterpreter (·.disposed) hf.2.2.2,
    rfl, rfl, rfl⟩

/-- The variables of an interpreter may be replaced. -/
theorem alike_withVars (w : World) (j : Nat) (vs : Variables) :
    w.Alike (w.withInterpreter j fun s => { s with vars := vs }) :=
  w.alike_withInterpreter j ⟨rfl, rfl, rfl, rfl⟩

end World

namespace Interp

/-- What is left of a disposal when the interpreter is marked. -/
def takeDown (i : Nat) : Program Unit := do
  let commands ← takeCommands i
  Program.each (fun c => runDelete i c.onDelete) commands
  let vars ← takeVariables i
  Program.each (fun p => fireUnset i p.1 (Flags.interpDestroyed.union .globalOnly)
    (Variables.wholeGroups p.2)) vars
  Program.modifyInterpreter i fun s => { s with vars := ∅ }

theorem dispose_eq (i : Nat) : dispose i =
    .get fun w =>
      if (w.interpreter i).disposed then .done ()
      else .get fun w =>
        .set (w.withInterpreter i fun s => { s with disposed := true }) (takeDown i) :=
  rfl

theorem release_eq (i : Nat) : release i =
    .get fun w =>
      .set (w.withInterpreter i fun s => { s with preserved := s.preserved - 1 })
        (.get fun w =>
          if (w.interpreter i).preserved = 0 ∧ (w.interpreter i).deleted then dispose i
          else .done ()) :=
  rfl

theorem delete_eq (i : Nat) : delete i =
    .get fun w =>
      if (w.interpreter i).deleted then .done ()
      else .get fun w =>
        .set (w.withInterpreter i fun s => { s with deleted := true })
          (.get fun w => if (w.interpreter i).preserved = 0 then dispose i else .done ()) :=
  rfl

end Interp

namespace Program

/-- A property that sequences keep and that does not see variables. -/
structure Coarse (Ok : Property) : Prop extends Sequential Ok where
  update {α : Type} {f : World → α × World} (hf : ∀ w : World, w.Alike (f w).2) :
    Ok (Program.update f)

namespace Coarse

variable {Ok : Property} {α : Type} {i : Nat}

theorem modifyInterpreter (h : Coarse Ok) (i : Nat) {f : Interpreter → Interpreter}
    (hf : ∀ s, (f s).commands = s.commands ∧ (f s).preserved = s.preserved ∧
      (f s).deleted = s.deleted ∧ (f s).disposed = s.disposed) :
    Ok (Program.modifyInterpreter i f) :=
  h.update (f := fun w => ((), w.withInterpreter i f)) fun w => w.alike_withInterpreter i (hf _)

theorem plain (h : Coarse Ok) (i : Nat) {f : Interpreter → Interpreter}
    (hf : Interpreter.Plain f) : Ok (Program.modifyInterpreter i f) :=
  h.modifyInterpreter i fun s => ⟨(hf.tables s).1, hf.lifetime s⟩

theorem aside (h : Coarse Ok) {f : World → α × World} (hf : ∀ w : World, w.Aside (f w).2) :
    Ok (Program.update f) :=
  h.update fun w => (hf w).alike

theorem setResult (h : Coarse Ok) (i : Nat) (v : Value) : Ok (Interp.setResult i v) :=
  h.modifyInterpreter i fun _ => ⟨rfl, rfl, rfl, rfl⟩

theorem fail (h : Coarse Ok) (i : Nat) (message : String) : Ok (Interp.fail i message) :=
  h.bind (h.setResult i _) fun _ => h.pure _

theorem enterCommand (h : Coarse Ok) (i : Nat) : Ok (Interp.enterCommand i) :=
  h.modifyInterpreter i fun _ => ⟨rfl, rfl, rfl, rfl⟩

theorem leaveCommand (h : Coarse Ok) (i : Nat) : Ok (Interp.leaveCommand i) :=
  h.modifyInterpreter i fun _ => ⟨rfl, rfl, rfl, rfl⟩

theorem enterTraces (h : Coarse Ok) (i : Nat) (r : VarRef) : Ok (Interp.enterTraces i r) :=
  h.modifyInterpreter i fun _ => ⟨rfl, rfl, rfl, rfl⟩

theorem leaveTraces (h : Coarse Ok) (i : Nat) : Ok (Interp.leaveTraces i) :=
  h.modifyInterpreter i fun _ => ⟨rfl, rfl, rfl, rfl⟩

/-- Traces are fired one by one. -/
theorem fireTraces (h : Coarse Ok) (i : Nat) (r : VarRef) (op flags : Flags)
    (hfire : ∀ t later, Ok (Program.request (.fire i t r (op.union flags.scope) later))) :
    Ok (Interp.fireTraces i r op flags) :=
  h.toSequential.fireTraces (h.enterTraces i r) (h.leaveTraces i) hfire

theorem fireUnset (h : Coarse Ok) (i : Nat) (name : String) (extra : Flags)
    (groups : List UnsetGroup)
    (hfire : ∀ t r flags later, Ok (Program.request
      (.fire i t r ((Flags.traceUnsets.union extra).union flags) later))) :
    Ok (Interp.fireUnset i name extra groups) :=
  h.toSequential.fireUnset (h.enterTraces i) (h.leaveTraces i) (fun _ _ => hfire _ _ _) groups

theorem store (h : Coarse Ok) (i : Nat) (r : VarRef) (v : Value) (flags : Flags) :
    Ok (Interp.store i r v flags) := by
  refine h.update fun w => ?_
  split
  · exact .refl w
  · exact w.alike_withVars i _

theorem unset (h : Coarse Ok) (i : Nat) (name : String) (key : Option String) (flags : Flags)
    (hfire : ∀ t r flags' later, Ok (Program.request
      (.fire i t r ((Flags.traceUnsets.union flags.scope).union flags') later))) :
    Ok (Interp.unset i name key flags) := by
  refine h.bind (h.update fun w => ?_) fun groups => ?_
  · split
    · exact .refl w
    · exact w.alike_withVars i _
  · split
    · exact h.bind (h.toSequential.reportAccess (h.setResult i) ..) fun _ => h.pure _
    · exact h.bind (h.fireUnset i _ _ _ hfire) fun _ => h.pure _

/-- Taking an interpreter down deletes its commands and fires the unset traces of its
variables. -/
theorem takeDown (h : Coarse Ok) (i : Nat) (htake : Ok (Interp.takeCommands i))
    (hdelete : ∀ action, Ok (Interp.runDelete i action))
    (hfire : ∀ t r flags later, Ok (Program.request (.fire i t r
      ((Flags.traceUnsets.union (Flags.interpDestroyed.union .globalOnly)).union flags) later))) :
    Ok (Interp.takeDown i) :=
  h.bind htake fun _ => h.bind (h.each (fun _ => hdelete _) _) fun _ =>
    h.bind (h.update fun w => w.alike_withVars i ∅) fun _ =>
      h.bind (h.each (fun _ => h.fireUnset i _ _ _ hfire) _) fun _ =>
        h.modifyInterpreter i fun _ => ⟨rfl, rfl, rfl, rfl⟩

theorem addTrace (h : Coarse Ok) (i : Nat) (name : String) (key : Option String) (t : Trace) :
    Ok (Interp.addTrace i name key t) := by
  refine h.bind (h.interpreter i) fun s => ?_
  split
  · exact h.bind (h.modifyInterpreter i fun _ => ⟨rfl, rfl, rfl, rfl⟩) fun _ => h.pure _
  · exact h.fail i _

theorem removeTrace (h : Coarse Ok) (i : Nat) (name : String) (key : Option String)
    (flags : Flags) (client : String) : Ok (Interp.removeTrace i name key flags client) :=
  h.update fun w => w.alike_withVars i _

theorem traceVar (h : Coarse Ok) (handle : Nat) (name : String) (key : Option String)
    (flags : Flags) (function : Nat)
    (hkeep : Ok (Bridge.keepFunction handle (Bridge.clientName function) function)) :
    Ok (Bridge.traceVar handle name key flags function) :=
  h.toSequential.traceVar (fun i => h.addTrace i name key _) hkeep

theorem untraceVar (h : Coarse Ok) (handle : Nat) (name : String) (key : Option String)
    (flags : Flags) (function : Nat)
    (hforget : Ok (Bridge.forgetFunction handle (Bridge.clientName function))) :
    Ok (Bridge.untraceVar handle name key flags function) :=
  h.toSequential.untraceVar (fun i => h.removeTrace i name key) hforget

end Coarse

/-- A property that sequences keep and that does not see who uses an interpreter. -/
structure Unheld (Ok : Property) : Prop extends Sequential Ok where
  spare {α : Type} {f : World → α × World}
    (hf : ∀ w : World, (f w).2.interpreters = w.interpreters ∧ (f w).2.handles = w.handles) :
    Ok (Program.update f)
  withPreserved (i : Nat) (f : Nat → Nat) :
    Ok (Program.modifyInterpreter i fun s => { s with preserved := f s.preserved })

namespace Unheld

variable {Ok : Property} {i : Nat}

theorem modify (h : Unheld Ok) {f : World → World}
    (hf : ∀ w : World, (f w).interpreters = w.interpreters ∧ (f w).handles = w.handles) :
    Ok (Program.modify f) :=
  h.spare (f := fun w => ((), f w)) hf

theorem release (h : Unheld Ok) (hdispose : Ok (Interp.dispose i)) : Ok (Interp.release i) := by
  refine h.bind (h.withPreserved i (· - 1)) fun _ => h.bind (h.interpreter i) fun s => ?_
  split
  · exact hdispose
  · exact h.pure ()

theorem guarded (h : Unheld Ok) (hfail : ∀ message, Ok (Interp.fail i message))
    (hrelease : Ok (Interp.release i)) {body : Program Status} (hbody : Ok body) :
    Ok (Interp.guarded i body) := by
  refine h.bind (h.interpreter i) fun s => ?_
  split
  · exact hfail _
  · exact h.bind (h.withPreserved i (· + 1)) fun _ => h.bind hbody fun status =>
      h.bind (h.reading _) fun _ => h.bind hrelease fun _ => h.pure _

theorem addGuard (h : Unheld Ok) (i : Nat) : Ok (Scenario.addGuard i) :=
  h.bind (h.modify fun _ => ⟨rfl, rfl⟩) fun _ => h.withPreserved i (· + 1)

theorem dropGuard (h : Unheld Ok) (hrelease : ∀ i, Ok (Interp.release i)) :
    Ok Scenario.dropGuard := by
  refine h.bind h.world fun w => ?_
  split
  · exact h.pure ()
  · exact h.bind (h.modify fun _ => ⟨rfl, rfl⟩) fun _ => hrelease _

theorem buildBundle (h : Unheld Ok) (i : Nat) (vs : List HostValue) :
    Ok (Bridge.buildBundle i vs) := by
  unfold Bridge.buildBundle
  split
  · exact h.pure _
  · refine h.bind h.world fun w => ?_
    split
    · have hobject : ∀ o, Ok (Bridge.newObject o) := fun o => h.spare fun _ => ⟨rfl, rfl⟩
      have hbundle : ∀ values, Ok (Bridge.addBundle i values) := fun values =>
        h.spare fun _ => ⟨rfl, rfl⟩
      exact h.bind (hbundle _) fun id => h.bind (h.withPreserved i (· + 1)) fun _ =>
        h.bind (hobject _) fun _ => h.pure _
    · exact h.pure _

theorem teardown (h : Unheld Ok) (hrelease : ∀ i, Ok (Interp.release i)) (id : Nat) :
    Ok (Bridge.teardown id) := by
  have hempty : Ok (Bridge.emptyBundle id) := by
    refine h.spare fun w => ?_
    dsimp only
    split <;> exact ⟨rfl, rfl⟩
  refine h.bind hempty fun owner => ?_
  split
  · exact hrelease _
  · exact h.pure _

end Unheld

end Program
end CommandBridge
