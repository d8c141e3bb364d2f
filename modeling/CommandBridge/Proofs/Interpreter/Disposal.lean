/-
# The disposal of an interpreter

When an interpreter is taken down all its commands are taken away before the first
delete procedure runs.  From then on it is sealed (`Sealed`): whatever happens, it gets
no command any more, so no delete procedure of its commands runs but those that are
still to come (`Disposal.holds`).  So a disposal runs the delete procedures of the
commands in the table, each once, and no others (`deletions_of_takeDown`).
-/

import CommandBridge.Proofs.Interpreter.Coarse
import CommandBridge.Proofs.Interpreter.Uses
import CommandBridge.Proofs.Run.CallLog
import CommandBridge.Proofs.Scenario.Conduct

namespace CommandBridge
namespace Disposal

variable {i j : Nat} {callers : List Call} {c : Call} {α : Type}

/-- An interpreter whose disposal has begun and that has no commands. -/
structure Sealed (i : Nat) (w : World) : Prop where
  commands : (w.interpreter i).commands = ∅
  deleted : (w.interpreter i).deleted = true
  disposed : (w.interpreter i).disposed = true

/-- A sealed interpreter stays so, and none of its commands is deleted. -/
def contract (i : Nat) : Contract {} where
  Pre _ c w := Sealed i w ∧ ∀ action, c ≠ .deleted i action
  Post _ _ _ w' := Sealed i w'
  Change _ _ _ _ := True
  change_bind _ _ := trivial

/-- Programs of the call `c` that keep the interpreter `i` sealed. -/
abbrev Sealing (i : Nat) (callers : List Call) (c : Call) : Program.Property :=
  fun _ p => p.Keeps (contract i) callers c (Sealed i)

theorem sealing_update {f : World → α × World} (hf : ∀ w, Sealed i w → Sealed i (f w).2) :
    Sealing i callers c (Program.update f) :=
  .update fun w hw _ => ⟨trivial, hf w hw⟩

theorem sealing_request {d : Call} (hd : ∀ action, d ≠ .deleted i action) :
    Sealing i callers c (Program.request d) :=
  .request fun _ hw _ => ⟨⟨hw, hd⟩, fun _ hw' => hw'⟩

theorem Sealed.of_alike {v w : World} (h : Sealed i v) (hw : v.Alike w) : Sealed i w :=
  ⟨(hw.commands i).trans h.commands, (hw.deleted i).trans h.deleted,
    (hw.disposed i).trans h.disposed⟩

/-- A change of an interpreter that brings it no commands and does not call it back. -/
theorem Sealed.withInterpreter {w : World} (h : Sealed i w) {f : Interpreter → Interpreter}
    (hc : (w.interpreter j).commands = ∅ → (f (w.interpreter j)).commands = ∅)
    (hd : (w.interpreter j).deleted = true → (f (w.interpreter j)).deleted = true)
    (hs : (w.interpreter j).disposed = true → (f (w.interpreter j)).disposed = true) :
    Sealed i (w.withInterpreter j f) := by
  refine ⟨?_, ?_, ?_⟩ <;> rw [World.interpreter_withInterpreter] <;> split
  · subst i; exact hc h.commands
  · exact h.commands
  · subst i; exact hd h.deleted
  · exact h.deleted
  · subst i; exact hs h.disposed
  · exact h.disposed

theorem coarse : Program.Coarse (Sealing i callers c) where
  pure a := .pure a
  bind hp hf := .bind hp hf
  get hk := .get fun w _ => hk w
  update hf := sealing_update fun w hw => hw.of_alike (hf w)

/-- Another interpreter may delete its commands. -/
theorem sealing_runDelete (hj : j ≠ i) (action : Option DeleteAction) :
    Sealing i callers c (Interp.runDelete j action) := by
  cases action with
  | none => exact .pure _
  | some a => exact sealing_request fun action h => hj (Call.deleted.inj h).1

theorem sealing_modifyInterpreter {f : Interpreter → Interpreter}
    (hf : ∀ s, (s.commands = ∅ → (f s).commands = ∅) ∧ (s.deleted = true → (f s).deleted = true) ∧
      (s.disposed = true → (f s).disposed = true)) :
    Sealing i callers c (Program.modifyInterpreter j f) :=
  sealing_update (f := fun w => ((), w.withInterpreter j f)) fun _ hw =>
    hw.withInterpreter (hf _).1 (hf _).2.1 (hf _).2.2

/-- Another interpreter may be changed. -/
theorem sealing_modifyInterpreter_of_ne (hj : j ≠ i) (f : Interpreter → Interpreter) :
    Sealing i callers c (Program.modifyInterpreter j f) :=
  sealing_update (f := fun w => ((), w.withInterpreter j f)) fun w hw =>
    ⟨by rw [World.interpreter_withInterpreter, if_neg hj, hw.commands],
      by rw [World.interpreter_withInterpreter, if_neg hj, hw.deleted],
      by rw [World.interpreter_withInterpreter, if_neg hj, hw.disposed]⟩

/-- Whatever is no interpreter may be changed. -/
theorem sealing_modify {f : World → World} (hf : ∀ w, (f w).interpreters = w.interpreters) :
    Sealing i callers c (Program.modify f) := by
  refine sealing_update (f := fun w => ((), f w)) fun w hw => ?_
  have hi : (f w).interpreter i = w.interpreter i := by
    rw [World.interpreter, hf]
    rfl
  exact ⟨hi ▸ hw.commands, hi ▸ hw.deleted, hi ▸ hw.disposed⟩

theorem Sealed.eraseCommand {w : World} (h : Sealed i w) (j : Nat) (name : String) :
    Sealed i (w.withInterpreter j fun s => { s with commands := s.commands.erase name }) := by
  refine h.withInterpreter (fun h => ?_) id id
  dsimp only
  rw [h]
  exact Std.ExtTreeMap.erase_empty

theorem sealing_takeCommand (name : String) : Sealing i callers c (Interp.takeCommand j name) :=
  sealing_update fun _ hw => hw.eraseCommand j name

/-- A deleted interpreter takes no commands. -/
theorem sealing_createCommand (name : String) (command : Command) :
    Sealing i callers c (Interp.createCommand j name command) := by
  refine .reading fun w hw => ?_
  split
  · exact .pure _
  · rename_i hdel
    have hj : j ≠ i := fun h => hdel (h ▸ hw.deleted)
    exact .bind (sealing_takeCommand name) fun _ => .bind (sealing_runDelete hj _) fun _ =>
      .bind (sealing_modifyInterpreter_of_ne hj _) fun _ => .pure _

/-- There is no command to delete. -/
theorem sealing_deleteCommand (name : String) :
    Sealing i callers c (Interp.deleteCommand j name) := by
  by_cases hj : j = i
  · subst hj
    intro w hw
    have hnone : (w.interpreter j).commands[name]? = none := by
      rw [hw.commands]
      exact Std.ExtTreeMap.getElem?_empty
    refine Program.Meets.bind (Program.meets_get_iff.2 fun _ => ⟨trivial, ?_⟩)
    dsimp only
    rw [hnone]
    exact hw.eraseCommand j name
  · refine .bind (sealing_takeCommand name) fun command => ?_
    split
    · exact .pure _
    · exact .bind (sealing_runDelete hj _) fun _ => .pure _

/-- There is no command to rename. -/
theorem sealing_renameCommand (old new : String) :
    Sealing i callers c (Interp.renameCommand j old new) := by
  refine .reading fun w hw => ?_
  split
  · exact coarse.fail j _
  · rename_i hold
    have hj : j ≠ i := by
      rintro rfl
      refine hold ?_
      rw [Interpreter.hasCommand, hw.commands, Std.ExtTreeMap.contains_empty]
      rfl
    split
    · exact .bind (sealing_deleteCommand old) fun _ => .pure _
    · split
      · exact coarse.fail j _
      · refine .bind (sealing_takeCommand old) fun command => ?_
        split
        · exact .pure _
        · exact .bind (sealing_modifyInterpreter_of_ne hj _) fun _ => .pure _

/-- An interpreter is disposed of once. -/
theorem sealing_dispose : Sealing i callers c (Interp.dispose j) := by
  rw [Interp.dispose_eq]
  refine .get fun w hw => ?_
  split
  · exact .pure ()
  · rename_i hdone
    have hj : j ≠ i := fun h => hdone (h ▸ hw.disposed)
    refine .bind (sealing_modifyInterpreter_of_ne hj _) fun _ =>
      coarse.takeDown j ?_ (sealing_runDelete hj) fun _ _ _ _ => sealing_request nofun
    exact sealing_update fun w hw =>
      hw.withInterpreter (f := fun s => { s with commands := ∅ }) (fun _ => rfl) id id

/-- Uses do not matter any more. -/
theorem unheld : Program.Unheld (Sealing i callers c) where
  toSequential := coarse.toSequential
  spare hf := sealing_update fun w hw => by
    have hi := World.interpreter_congr (hf w).1 i
    exact ⟨hi ▸ hw.commands, hi ▸ hw.deleted, hi ▸ hw.disposed⟩
  withPreserved _ _ := sealing_modifyInterpreter fun _ => ⟨id, id, id⟩

theorem sealing_release : Sealing i callers c (Interp.release j) :=
  unheld.release sealing_dispose

theorem sealing_delete : Sealing i callers c (Interp.delete j) :=
  coarse.delete (sealing_modifyInterpreter fun _ => ⟨id, fun _ => rfl, id⟩) sealing_dispose

/-- A new interpreter is another one. -/
theorem sealing_addInterpreter (maxNesting : Nat) :
    Sealing i callers c (Bridge.addInterpreter maxNesting) := by
  refine sealing_update fun w hw => ?_
  have hi : w.interpreters.next ≠ i := by
    rintro rfl
    have hdel := hw.deleted
    rw [w.interpreter_next] at hdel
    cases hdel
  have hsame := w.interpreter_add (.new maxNesting) i
  rw [if_neg hi] at hsame
  exact ⟨hsame ▸ hw.commands, hsame ▸ hw.deleted, hsame ▸ hw.disposed⟩

/-- The programs of all calls, but for the evaluations. -/
theorem conduct : Program.Conduct (Sealing i callers c) where
  toSequential := coarse.toSequential
  setResult := coarse.setResult
  fireTraces j r _ _ flags := coarse.fireTraces j r _ flags fun _ _ => sealing_request nofun
  invoke _ _ := sealing_request nofun
  overflow := .overflow
  update := coarse.aside
  request hc := sealing_request fun action h => by rw [h] at hc; exact hc
  modifyInterpreter j _ hf := coarse.plain j hf
  store := coarse.store
  unset j name key flags := coarse.unset j name key flags fun _ _ _ _ => sealing_request nofun
  createCommand _ name _ _ := sealing_createCommand name _
  deleteCommand _ := sealing_deleteCommand
  delete _ := sealing_delete
  buildBundle := unheld.buildBundle
  teardown := unheld.teardown fun _ => sealing_release
  addInterpreter := sealing_addInterpreter
  addHandle _ _ := sealing_update fun _ hw => ⟨hw.commands, hw.deleted, hw.disposed⟩
  destroy _ := coarse.destroy (sealing_modify fun _ => rfl) fun _ => sealing_delete
  register _ _ _ :=
    coarse.register (fun _ => sealing_createCommand _ _) (sealing_modify fun _ => rfl)
  traceVar handle name key flags function :=
    coarse.traceVar handle name key flags function (sealing_modify fun _ => rfl)
  untraceVar handle name key flags function :=
    coarse.untraceVar handle name key flags function (sealing_modify fun _ => rfl)

/-- Evaluations too. -/
theorem sealing_guarded {body : Program Status} (hbody : Sealing i callers c body) :
    Sealing i callers c (Interp.guarded j body) :=
  unheld.guarded (coarse.fail j) sealing_release hbody

theorem sealing_runDeleteAction (action : DeleteAction) :
    Sealing i callers c (Scenario.runDeleteAction j action) := by
  cases action with
  | forget handle key => exact sealing_modify fun _ => rfl
  | scripted label body => exact conduct.runDeleted j label body

/-- Every call keeps an interpreter sealed. -/
theorem holds (i : Nat) : (contract i).Holds Scenario.handle := by
  intro callers c w _ hw
  have h : Program.Conduct (Sealing i callers c) := conduct
  have hcall : Sealing i callers c (Scenario.handle c) := by
    cases hc : c.evaluated? with
    | some j =>
      cases c with
      | eval k script =>
        exact sealing_guarded (h.bind (h.setResult k _) fun _ => h.runScript k _)
      | evalWords k words => exact sealing_guarded (h.invoke k words)
      | _ => cases hc
    | none =>
      exact h.handle hc (fun _ _ => sealing_renameCommand) (fun j _ _ =>
        ⟨coarse.enterCommand j, coarse.leaveCommand j⟩)
        coarse.addTrace coarse.removeTrace
        (fun _ _ _ _ => sealing_modify fun _ => rfl) unheld.addGuard
        (unheld.dropGuard fun _ => sealing_release)
        (fun j _ => unheld.withPreserved j (· + 1)) fun _ _ => sealing_release
  exact hcall w hw.1

/-! ### The delete procedures that run -/

/-- The delete procedure of a command of the interpreter that a call runs. -/
def deletion? (i : Nat) : Call → Option DeleteAction
  | .deleted j action => if j = i then some action else none
  | _ => none

/-- What meets the contract deletes no command of the interpreter. -/
theorem no_deletions {p : Program α} {w w' : World} {cs : List Call} {a : α}
    (h : Program.Makes Scenario.handle p w cs a w') (hp : Sealing i [] c p) (hw : Sealed i w) :
    Sealed i w' ∧ cs.filterMap (deletion? i) = [] := by
  obtain ⟨hw', hcs⟩ := h.meets (holds i) (hp w hw)
  refine ⟨hw', List.filterMap_eq_nil_iff.2 fun d hd => ?_⟩
  obtain ⟨_, v, hpre⟩ := hcs d hd
  cases d with
  | deleted j action =>
    refine if_neg fun hj => ?_
    exact hpre.2 action (hj ▸ rfl)
  | _ => rfl

/-- Commands are deleted one by one. -/
theorem deletions_of_each {w w' : World} {cs : List Call} {a : Unit} {commands : List Command}
    (h : Program.Makes Scenario.handle
      (Program.each (fun c => Interp.runDelete i c.onDelete) commands) w cs a w')
    (hw : Sealed i w) :
    Sealed i w' ∧ cs.filterMap (deletion? i) = commands.filterMap (·.onDelete) := by
  induction commands generalizing w cs with
  | nil =>
    obtain ⟨rfl, -, rfl⟩ := Program.makes_done_iff.1 h
    exact ⟨hw, rfl⟩
  | cons command rest ih =>
    obtain ⟨_, w₁, cs₁, cs₂, rfl, h₁, h₂⟩ := Program.Makes.of_bind h
    cases haction : command.onDelete with
    | none =>
      dsimp only at h₁
      rw [haction] at h₁
      obtain ⟨rfl, -, rfl⟩ := Program.makes_done_iff.1 h₁
      obtain ⟨hw', hcs⟩ := ih h₂ hw
      rw [List.filterMap_cons, haction]
      exact ⟨hw', hcs⟩
    | some action =>
      dsimp only at h₁
      rw [haction] at h₁
      obtain ⟨cs₃, rfl, hinner⟩ := Program.Makes.of_request h₁
      obtain ⟨hw₁, hnone⟩ :=
        no_deletions hinner (sealing_runDeleteAction (c := .deleted i action) action) hw
      obtain ⟨hw', hcs⟩ := ih h₂ hw₁
      rw [List.filterMap_cons, haction, List.cons_append, List.filterMap_cons, deletion?,
        if_pos rfl, List.filterMap_append, hnone, hcs]
      exact ⟨hw', rfl⟩

/-- **A disposal deletes the commands in the table**, in the order of the takedown and
each once, and no other command of the interpreter is deleted meanwhile. -/
theorem deletions_of_takeDown {w w' : World} {cs : List Call} {a : Unit}
    (h : Program.Makes Scenario.handle (Interp.takeDown i) w cs a w')
    (hd : (w.interpreter i).deleted = true) (hs : (w.interpreter i).disposed = true) :
    Sealed i w' ∧ cs.filterMap (deletion? i) =
      (w.order.commands i ((w.interpreter i).commands.toList.map (·.2))).filterMap
        (·.onDelete) := by
  obtain ⟨_, w₁, cs₁, cs₂, rfl, h₁, h₂⟩ := Program.Makes.of_bind h
  obtain ⟨rfl, rfl, rfl⟩ := Program.makes_update_iff.1 h₁
  have htaken : (w.withInterpreter i fun s => { s with commands := ∅ }).interpreter i =
      { w.interpreter i with commands := ∅ } := by
    rw [World.interpreter_withInterpreter_self]
  have hw₁ : Sealed i (w.withInterpreter i fun s => { s with commands := ∅ }) :=
    ⟨by rw [htaken], by rw [htaken]; exact hd, by rw [htaken]; exact hs⟩
  obtain ⟨_, w₂, cs₃, cs₄, rfl, h₃, h₄⟩ := Program.Makes.of_bind h₂
  obtain ⟨hw₂, hcs₃⟩ := deletions_of_each h₃ hw₁
  have hrest : Sealing i [] (.interpreterStep i .delete) (Interp.takeVariables i >>= fun vars =>
      Program.each (fun p => Interp.fireUnset i p.1 (Flags.interpDestroyed.union .globalOnly)
        (Variables.wholeGroups p.2)) vars >>= fun _ =>
      Program.modifyInterpreter i fun s => { s with vars := ∅ }) :=
    .bind (coarse.update fun w => w.alike_withVars i ∅) fun _ =>
      .bind (coarse.each (fun _ => coarse.fireUnset i _ _ _ fun _ _ _ _ => sealing_request nofun) _)
        fun _ => coarse.modifyInterpreter i fun _ => ⟨rfl, rfl, rfl, rfl⟩
  obtain ⟨hw', hcs₄⟩ := no_deletions h₄ hrest hw₂
  refine ⟨hw', ?_⟩
  rw [List.nil_append, List.filterMap_append, hcs₃, hcs₄, List.append_nil]

end Disposal

/-! ### The life of an interpreter -/

/-- Nothing has been done with the interpreter yet. -/
structure World.Unused (w : World) (i : Nat) : Prop where
  preserved : (w.interpreter i).preserved = 0
  deleted : (w.interpreter i).deleted = false
  disposed : (w.interpreter i).disposed = false
  guards : w.guardsOn i = 0

/-- A machine that makes its next step begins to dispose of the interpreter, which is
deleted and not used.  What is left of the disposal comes next; it runs the delete
procedures of the commands that are in the table, each once and in the order of the takedown,
and leaves the interpreter sealed. -/
structure Machine.Disposes {root : Call} (i : Nat) (m m' : Machine root) : Prop where
  before : (m.world.interpreter i).disposed = false
  after : (m'.world.interpreter i).disposed = true
  deleted : (m.world.interpreter i).deleted = true
  unused : (m.world.interpreter i).preserved = 0
  rest : ∃ q, m'.code = (Interp.takeDown i).bind q
  deletions : ∀ cs w', Program.Makes Scenario.handle (Interp.takeDown i) m'.world cs () w' →
    Disposal.Sealed i w' ∧ cs.filterMap (Disposal.deletion? i) =
      (m.world.order.commands i ((m.world.interpreter i).commands.toList.map (·.2))).filterMap
        (·.onDelete)

/-- What begins with a step is a disposal. -/
theorem Uses.Begins.disposes {i : Nat} {root : Call} {m m' : Machine root}
    (h : Uses.Begins i m.world m'.world m'.code) : m.Disposes i m' := by
  have hmark : m'.world.interpreter i = { m.world.interpreter i with disposed := true } := by
    rw [h.marked, World.interpreter_withInterpreter_self]
  refine ⟨h.before, by rw [hmark], h.deleted, h.unused, h.rest, fun cs w' hcs => ?_⟩
  have hdeletions := Disposal.deletions_of_takeDown hcs (by rw [hmark]; exact h.deleted)
    (by rw [hmark])
  rw [hmark, h.marked] at hdeletions
  exact hdeletions

/-- **The life of an interpreter.**  Whatever calls the host makes one after the other,
and however calls lead into each other, as long as nobody uses an interpreter but
guards, bundles and evaluations: at every call and at every reply the number of its
uses is that of its guards, of its bundles that are not torn down and of the evaluations
in progress; it has been disposed of if it is deleted and not used, and only if it is
deleted; and every step leaves it as it is in this respect or disposes of it. -/
theorem Machine.Occurs.life {i : Nat} {w₀ : World} (h₀ : w₀.Unused i) {root : Call}
    {m : Machine root} (h : m.Occurs guarded Scenario.handle w₀) :
    (∀ d k, m.code = .call d k → guarded.calls m.stack.calls d m.world →
        Uses.Accounted i (m.evaluations i) m.world) ∧
      (∀ a, m.code = .done a → Uses.Accounted i (m.evaluations i) m.world) ∧
      ∀ m', m.Leads guarded Scenario.handle m' →
        (m'.world.interpreter i).disposed = (m.world.interpreter i).disposed ∨ m.Disposes i m' := by
  have h₀' : Uses.Accounted i 0 w₀ :=
    ⟨by rw [h₀.preserved, h₀.guards], fun hd => absurd (h₀.deleted.symm.trans hd) nofun,
      fun hs => absurd (h₀.disposed.symm.trans hs) nofun⟩
  obtain ⟨hcall, hdone, hset⟩ := h.boundary (Uses.holds i) Uses.between h₀'
  refine ⟨fun d k hd hs => ?_, fun a ha => ?_, ?_⟩
  · rw [Machine.evaluations, hd]
    exact hcall d k hd hs
  · rw [Machine.evaluations, ha]
    obtain ⟨_, hpost⟩ := hdone a ha
    rw [m.stack.calls_eq]
    exact hpost
  · obtain ⟨c, code, stack, w⟩ := m
    rintro m' ⟨hallowed, hstep⟩
    cases code with
    | done a =>
      cases stack with
      | base => cases hstep
      | frame _ k rest =>
        obtain rfl := Sum.inl.inj hstep
        exact .inl rfl
    | get k =>
      obtain rfl := Sum.inl.inj hstep
      exact .inl rfl
    | call d k =>
      obtain rfl := Sum.inl.inj hstep
      exact .inl rfl
    | set w' p =>
      obtain rfl := Sum.inl.inj hstep
      exact (hset w' p rfl hallowed).imp_right fun hb => hb.disposes
    | overflow o => cases hstep

/-- A world with one new interpreter. -/
def World.single (maxNesting : Nat) : World :=
  { interpreters := Pool.empty.add (.new maxNesting) }

theorem World.interpreter_single (n : Nat) : (World.single n).interpreter 0 = .new n :=
  Pool.get_add_next _ _

theorem World.unused_single (n : Nat) : (World.single n).Unused 0 := by
  have h := World.interpreter_single n
  exact ⟨by rw [h]; rfl, by rw [h]; rfl, by rw [h]; rfl, rfl⟩

/-- An evaluation that invokes a command is one use; an interpreter that is not used is
disposed of when it is deleted. -/
theorem Machine.Occurs.life_single : (World.single 10).Unused 0 ∧
    (∃ m : Machine (.evalWords 0 [.text "list"]), m.Occurs guarded Scenario.handle (.single 10) ∧
      m.evaluations 0 = 1 ∧ Uses.Accounted 0 1 m.world) ∧
    ∃ m m' : Machine (.interpreterStep 0 .delete), m.Occurs guarded Scenario.handle (.single 10) ∧
      m.Leads guarded Scenario.handle m' ∧ m.Disposes 0 m' := by
  have hw := World.unused_single 10
  refine ⟨hw, ?_, ?_⟩
  · have h : Machine.Occurs guarded Scenario.handle (.single 10)
        (.start Scenario.handle (.evalWords 0 [.text "list"]) (.single 10)) := .start trivial
    have h := ((h.next ⟨trivial, rfl⟩).next ⟨trivial, rfl⟩).next ⟨trivial, rfl⟩
    exact ⟨_, h, rfl, (h.life hw).1 _ _ rfl trivial⟩
  · have h : Machine.Occurs guarded Scenario.handle (.single 10)
        (.start Scenario.handle (.interpreterStep 0 .delete) (.single 10)) := .start trivial
    have h := (((((h.next ⟨trivial, rfl⟩).next ⟨trivial, rfl⟩).next ⟨trivial, rfl⟩).next
      ⟨trivial, rfl⟩).next ⟨trivial, rfl⟩).next ⟨trivial, rfl⟩
    refine ⟨_, _, h, ⟨trivial, rfl⟩, ((h.life hw).2.2 _ ⟨trivial, rfl⟩).resolve_left ?_⟩
    exact nofun
end CommandBridge
