/-
# Silence after the disposal

An interpreter that has been disposed of does not call the host any more
(`Machine.Watched.left_alone`): none of its commands does so, whatever was in progress when
it was disposed of, and none of its traces, unless a loop had still to fire one then.

A disposal takes all commands away and then all variables with their traces.  What is left
may still be written to, but there is nothing to invoke and nothing to fire (`Silence.Fit`).
So what calls the host has begun before, and it has the interpreter before it: a command
that is found is run at once, and traces that are fired one after the other do so as long
as the interpreter is not disposed of in between (`Silence.fires`).  An evaluation keeps its
interpreter from that, a plain access does not; the traces that it has listed are fired to
the last one (`Silence.called_after_disposal`).
-/

import CommandBridge.Proofs.Bridge.Persistence
import CommandBridge.Proofs.Interpreter.Disposal

namespace CommandBridge

/-- A loop in progress has still to fire a trace of the interpreter, and not because the
interpreter is being taken down. -/
def Call.Holding (cs : List Call) (i : Nat) : Prop :=
  ∃ x, Call.Pending cs i x ∧ x.flags.contains .interpDestroyed = false

theorem Call.Holding.cons {cs : List Call} {i : Nat} (h : Holding cs i) (c : Call) :
    Holding (c :: cs) i :=
  h.imp fun _ hx => ⟨hx.1.cons c, hx.2⟩

/-- The runs of the bridge.  The monitor is in the state `true` as long as the interpreter
has not been disposed of while a loop had still to fire a trace of it. -/
def orderly (i : Nat) : Monitor Bool where
  calls cs c _ _ := (∀ j step, c ≠ .interpreterStep j step) ∧
    (∀ t r flags later, cs = [] → c ≠ .fire i t r flags later)
  changes cs c s w s' w' := s' = true → s = true ∧
    ((w.interpreter i).disposed = false → (w'.interpreter i).disposed = true →
      ¬Call.Holding (c :: cs) i)

namespace Silence

variable {i j : Nat} {cs : List Call} {c : Call} {α : Type} {L P : Prop} {s s' : Bool}
  {w w' : World}

/-- The interpreter has not been disposed of, or it was while a loop had still to fire a
trace of it. -/
def Live (i : Nat) (s : Bool) (w : World) : Prop :=
  s = true → (w.interpreter i).disposed = false

/-- An interpreter that has been disposed of has no commands, and no traces if no loop had
still to fire one then. -/
structure Fit (i : Nat) (s : Bool) (w : World) : Prop where
  sealed : (w.interpreter i).disposed = true → Disposal.Sealed i w
  bare : (w.interpreter i).disposed = true → s = true →
    ∀ r, (w.interpreter i).vars.tracesOn r = []

/-- What a call does to the interpreter.  It is not disposed of in order while a loop has
still to fire a trace of it. -/
structure Kept (i : Nat) (cs : List Call) (s : Bool) (w : World) (s' : Bool) (w' : World) :
    Prop where
  fit : Fit i s' w'
  live : Call.Holding cs i → Live i s w → Live i s' w'

/-- The host is called by a command of the interpreter or by a trace of it only if it has
not been disposed of. -/
structure Invited (i : Nat) (cs : List Call) (s : Bool) (w : World) : Prop where
  fit : Fit i s w
  command : ∀ words rest, cs = .invoke i words :: rest → (w.interpreter i).disposed = false
  trace : ∀ t r flags later rest, cs = .fire i t r flags later :: rest → Live i s w

/-- Delete procedures may be called in the middle of a disposal, and they leave all
interpreters alone. -/
def contract (i : Nat) : (orderly i).Contract where
  Pre cs c s w := match c with
    | .deleted .. => True
    | .fire j _ _ flags _ =>
      Fit i s w ∧ (j = i → flags.contains .interpDestroyed = false → Live i s w)
    | .host .. => Invited i cs s w
    | _ => Fit i s w
  Post cs c s w s' w' := match c with
    | .deleted .. => w'.interpreters = w.interpreters ∧ (s' = true → s = true)
    | _ => Kept i (c :: cs) s w s' w'
  Change _ w _ w' := (w.interpreter i).disposed = true → (w'.interpreter i).disposed = true

/-- The interpreter is as it may be, and under `L` it has not been disposed of. -/
structure Holds (i : Nat) (L : Prop) (s : Bool) (w : World) : Prop where
  fit : Fit i s w
  live : L → Live i s w

/-- Programs of the call `c` after which things are as before.  That the interpreter is not
disposed of is kept while a loop has still to fire a trace of it. -/
abbrev Keeping (i : Nat) (cs : List Call) (c : Call) : Program.Property :=
  fun _ p => ∀ L, (L → Call.Holding (c :: cs) i) →
    p.Takes (contract i) cs c (Holds i L) (Holds i L)

theorem sequential : Program.Sequential (Keeping i cs c) where
  pure b _ _ := .pure b
  bind hp hf L hL := .bind (hp L hL) fun b => hf b L hL
  get hk L hL := .get fun w => hk w L hL

theorem Holds.weaken (h : Holds i P s w) (hP : L → P) : Holds i L s w :=
  ⟨h.fit, fun hL => h.live (hP hL)⟩

theorem Fit.mono (h : Fit i s w) (hs : s' = true → s = true) : Fit i s' w :=
  ⟨h.sealed, fun hd hs' => h.bare hd (hs hs')⟩

theorem Fit.of_not_disposed (h : (w.interpreter i).disposed = false) : Fit i s w :=
  ⟨fun hd => absurd (h.symm.trans hd) nofun, fun hd => absurd (h.symm.trans hd) nofun⟩

/-- An interpreter that still has traces is there. -/
theorem Fit.live_of_mem (h : Fit i s w) {r : VarRef} {t : Trace}
    (ht : t ∈ (w.interpreter i).vars.tracesOn r) : Live i s w := by
  refine fun hs => Bool.eq_false_iff.2 fun hd => ?_
  rw [h.bare hd hs r] at ht
  cases ht

/-! ### Changes of no account -/

/-- A change that is of no account to an interpreter that has been disposed of. -/
structure Calm (i : Nat) (w w' : World) : Prop where
  disposed : (w'.interpreter i).disposed = (w.interpreter i).disposed
  fit : ∀ s, Fit i s w → Fit i s w'

theorem calm_of_eq (h : w'.interpreter i = w.interpreter i) : Calm i w w' := by
  refine ⟨by rw [h], fun s hw => ⟨fun hd => ?_, fun hd hs => ?_⟩⟩
  · have hsealed := hw.sealed (h ▸ hd)
    exact ⟨h ▸ hsealed.commands, h ▸ hsealed.deleted, h ▸ hsealed.disposed⟩
  · rw [h] at hd ⊢
    exact hw.bare hd hs

theorem calm_of_interpreters (h : w'.interpreters = w.interpreters) : Calm i w w' :=
  calm_of_eq (World.interpreter_congr h i)

/-- An interpreter is changed that gets no commands and no traces. -/
theorem calm_withInterpreter (w : World) (j : Nat) {f : Interpreter → Interpreter}
    (hs : (f (w.interpreter j)).disposed = (w.interpreter j).disposed)
    (hd : (w.interpreter j).deleted = true → (f (w.interpreter j)).deleted = true)
    (hc : (w.interpreter j).commands = ∅ → (f (w.interpreter j)).commands = ∅)
    (ht : ∀ r, List.Sublist ((f (w.interpreter j)).vars.tracesOn r)
      ((w.interpreter j).vars.tracesOn r)) :
    Calm i w (w.withInterpreter j f) := by
  have hdisposed := World.apply_withInterpreter (·.disposed) hs i
  refine ⟨hdisposed, fun s hw => ⟨fun h => ?_, fun h hstate r => ?_⟩⟩
  · exact (hw.sealed (hdisposed.symm.trans h)).withInterpreter hc hd hs.trans
  · have hbare := hw.bare (hdisposed.symm.trans h) hstate r
    rw [World.interpreter_withInterpreter]
    split
    · subst j
      exact List.sublist_nil.1 (hbare ▸ ht r)
    · exact hbare

theorem calm_withInterpreter_of_ne (w : World) (hj : j ≠ i) (f : Interpreter → Interpreter) :
    Calm i w (w.withInterpreter j f) :=
  calm_of_eq (by rw [World.interpreter_withInterpreter, if_neg hj])

theorem Holds.calm (h : Holds i L s w) (hs : (orderly i).changes cs c s w s' w')
    (hw : Calm i w w') : Holds i L s' w' :=
  ⟨(hw.fit s h.fit).mono fun hs' => (hs hs').1,
    fun hL hs' => hw.disposed.trans (h.live hL (hs hs').1)⟩

theorem takes_calm {f : World → α × World} (hf : ∀ w, Calm i w (f w).2) :
    (Program.update f).Takes (contract i) cs c (Holds i L) (Holds i L) :=
  .update fun _ w _ h hs => ⟨(hf w).disposed.trans, h.calm hs (hf w)⟩

theorem keeping_calm {f : World → α × World} (hf : ∀ w, Calm i w (f w).2) :
    Keeping i cs c (Program.update f) :=
  fun _ _ => takes_calm hf

/-- Whatever is no interpreter may be changed. -/
theorem takes_modify {f : World → World} (hf : ∀ w, (f w).interpreters = w.interpreters) :
    (Program.modify f).Takes (contract i) cs c (Holds i L) (Holds i L) :=
  takes_calm (f := fun w => ((), f w)) fun w => calm_of_interpreters (hf w)

theorem keeping_modify {f : World → World} (hf : ∀ w, (f w).interpreters = w.interpreters) :
    Keeping i cs c (Program.modify f) :=
  fun _ _ => takes_modify hf

theorem calm_plain (w : World) (j : Nat) {f : Interpreter → Interpreter}
    (hf : Interpreter.Plain f) : Calm i w (w.withInterpreter j f) := by
  obtain ⟨hcommands, hvars, -⟩ := hf.tables (w.interpreter j)
  obtain ⟨-, hdeleted, hdisposed⟩ := hf.lifetime (w.interpreter j)
  exact calm_withInterpreter w j hdisposed hdeleted.trans hcommands.trans fun r =>
    hvars ▸ List.Sublist.refl _

theorem calm_withVars (w : World) (j : Nat) {vs : Variables}
    (hvs : ∀ r, List.Sublist (vs.tracesOn r) ((w.interpreter j).vars.tracesOn r)) :
    Calm i w (w.withInterpreter j fun s => { s with vars := vs }) :=
  calm_withInterpreter w j (f := fun s => { s with vars := vs }) rfl id id hvs

theorem takes_plain {f : Interpreter → Interpreter} (hf : Interpreter.Plain f) :
    (Program.modifyInterpreter j f).Takes (contract i) cs c (Holds i L) (Holds i L) :=
  takes_calm (f := fun w => ((), w.withInterpreter j f)) fun w => calm_plain w j hf

theorem takes_setResult (v : Value) :
    (Interp.setResult j v).Takes (contract i) cs c (Holds i L) (Holds i L) :=
  takes_plain fun _ => rfl

theorem takes_fail (message : String) :
    (Interp.fail j message).Takes (contract i) cs c (Holds i L) (Holds i L) :=
  .bind (takes_setResult _) fun _ => .pure _

/-- The variables of an interpreter may change at will as long as it is there. -/
theorem Holds.change (h : Holds i L s w) {f : Interpreter → Interpreter}
    (hs : (orderly i).changes cs c s w s' (w.withInterpreter j f))
    (hd : (f (w.interpreter j)).disposed = (w.interpreter j).disposed)
    (hdeleted : (f (w.interpreter j)).deleted = (w.interpreter j).deleted)
    (hc : (f (w.interpreter j)).commands = (w.interpreter j).commands)
    (hv : j = i → L ∨ (f (w.interpreter j)).vars = (w.interpreter j).vars) :
    ((w.interpreter i).disposed = true → ((w.withInterpreter j f).interpreter i).disposed = true) ∧
      Holds i L s' (w.withInterpreter j f) := by
  have hdisposed := World.apply_withInterpreter (·.disposed) hd i
  refine ⟨hdisposed.trans, ⟨fun hi => ?_, fun hi hs' r => ?_⟩,
    fun hL hs' => hdisposed.trans (h.live hL (hs hs').1)⟩
  · exact (h.fit.sealed (hdisposed.symm.trans hi)).withInterpreter hc.trans hdeleted.trans hd.trans
  · have hbare := h.fit.bare (hdisposed.symm.trans hi) (hs hs').1 r
    rw [World.interpreter_withInterpreter]
    split
    · rename_i hj
      subst hj
      rcases hv rfl with hL | hv
      · exact absurd ((h.live hL (hs hs').1).symm.trans (hdisposed.symm.trans hi)) nofun
      · rw [hv, hbare]
    · exact hbare

/-- Another interpreter may be changed. -/
theorem keeping_modifyInterpreter_of_ne (hj : j ≠ i) (f : Interpreter → Interpreter) :
    Keeping i cs c (Program.modifyInterpreter j f) :=
  keeping_calm (f := fun w => ((), w.withInterpreter j f)) fun w =>
    calm_withInterpreter_of_ne w hj f

/-- A new interpreter has not been disposed of. -/
theorem calm_addInterpreter (w : World) (maxNesting : Nat) :
    Calm i w { w with interpreters := w.interpreters.add (.new maxNesting) } := by
  have hadd := w.interpreter_add (.new maxNesting) i
  by_cases hi : w.interpreters.next = i
  · rw [if_pos hi] at hadd
    have hbefore : w.interpreter i = {} := hi ▸ w.interpreter_next
    refine ⟨by rw [hadd, hbefore]; rfl, fun _ _ => .of_not_disposed ?_⟩
    rw [hadd]
    rfl
  · rw [if_neg hi] at hadd
    exact calm_of_eq hadd

/-! ### Calls -/

theorem Holds.kept (h : Holds i L s w) (hL : L → Call.Holding cs i) (hw : Kept i cs s w s' w') :
    Holds i L s' w' :=
  ⟨hw.fit, fun hl => hw.live (hL hl) (h.live hl)⟩

/-- A program that belongs to no command and to no trace of the interpreter may make every
call. -/
theorem keeping_request {d : Call} (hd : d.IsOperation)
    (hhost : ∀ f args, d = .host f args → ∀ s w, Fit i s w → Invited i (c :: cs) s w) :
    Keeping i cs c (Program.request d) := by
  refine fun L hL => .request fun s w h _ => ?_
  have hL : L → Call.Holding (d :: c :: cs) i := fun hl => (hL hl).cons d
  cases d with
  | fire | deleted => exact hd.elim
  | host f args => exact ⟨hhost f args rfl s w h.fit, fun _ _ hw => h.kept hL hw⟩
  | eval | evalWords | invoke | interpreterStep | bridgeStep =>
    exact ⟨h.fit, fun _ _ hw => h.kept hL hw⟩

/-- Delete procedures leave all interpreters alone. -/
theorem takes_runDelete {I : Bool → World → Prop}
    (hI : ∀ s w s' w', I s w → w'.interpreters = w.interpreters → (s' = true → s = true) → I s' w')
    (action : Option DeleteAction) :
    (Interp.runDelete j action).Takes (contract i) cs c I I := by
  cases action with
  | none => exact .pure ()
  | some a => exact .request fun s w h _ => ⟨trivial, fun s' w' hw => hI s w s' w' h hw.1 hw.2⟩

theorem keeping_runDelete (action : Option DeleteAction) :
    Keeping i cs c (Interp.runDelete j action) := by
  refine fun L _ => takes_runDelete (fun s w s' w' h hw hs => ?_) action
  have hcalm := calm_of_interpreters (i := i) hw
  exact ⟨(hcalm.fit s h.fit).mono hs, fun hL hs' => hcalm.disposed.trans (h.live hL (hs hs'))⟩

/-! ### Firing traces -/

/-- Some of the traces of the interpreter are not told that it is being taken down. -/
def Left (i j : Nat) (xs : List Firing) : Prop :=
  j = i ∧ ∃ x ∈ xs, x.flags.contains .interpDestroyed = false

/-- While a loop has still to fire traces of the interpreter, the interpreter is there, or
they are told that it is being taken down. -/
theorem fires (hL : L → Call.Holding (c :: cs) i) :
    Program.Fires (contract i) cs c j fun xs => Holds i (L ∨ Left i j xs) where
  dropped xs _ _ _ h := h.weaken (Or.imp_right fun ⟨hj, x, hx, hflags⟩ =>
    ⟨hj, x, List.mem_append_right xs hx, hflags⟩)
  fire y later := by
    refine .request fun s w h _ => ⟨⟨h.fit, fun hj hflags =>
      h.live (.inr ⟨hj, y, List.mem_cons_self, hflags⟩)⟩, fun s' w' hw => ?_⟩
    refine (h.weaken (Or.imp_right fun ⟨hj, x, hx, hflags⟩ =>
      ⟨hj, x, List.mem_cons_of_mem y hx, hflags⟩)).kept ?_ hw
    rintro (hl | ⟨rfl, x, hx, hflags⟩)
    · exact (hL hl).cons _
    · exact ⟨x, Call.pending_fire hx, hflags⟩
  active f _ := by
    refine Program.Takes.update
      (f := fun w => ((), w.withInterpreter j fun s => { s with active := f s.active }))
      fun s w s' h hs => h.change hs rfl rfl rfl fun _ => .inr rfl

theorem Holds.ended (h : Holds i (L ∨ Left i j []) s w) : Holds i L s w :=
  h.weaken .inl

/-- The traces on an access are fired while the interpreter is there. -/
theorem keeping_fireTraces (r : VarRef) (op flags : Flags) :
    Keeping i cs c (Interp.fireTraces j r op flags) := by
  refine fun L hL s w h => (fires hL).fireTraces h (fun hfound => ⟨h.fit, ?_⟩) fun _ _ h => h.ended
  rintro (hl | ⟨rfl, -⟩)
  · exact h.live hl
  · obtain ⟨t, ht⟩ := List.exists_mem_of_ne_nil _ hfound
    exact (Variables.mem_tracesFor ht).elim h.fit.live_of_mem h.fit.live_of_mem

/-- What is fired for the variables of an interpreter that is being taken down is told so. -/
theorem not_left_destroyed {name : String} {groups : List UnsetGroup} :
    ¬Left i j (Interp.groupFirings name (Flags.interpDestroyed.union .globalOnly) groups) := by
  rintro ⟨-, x, hx, hflags⟩
  obtain ⟨g, -, hx⟩ := List.mem_flatMap.1 hx
  obtain ⟨t, -, rfl⟩ := List.mem_map.1 hx
  exact nomatch hflags.symm.trans
    (Flags.contains_union_left (Flags.contains_union_right (by decide) _) _)

/-- An interpreter that is being taken down need not be there while its traces are fired. -/
theorem takes_fireUnset_destroyed (hL : L → Call.Holding (c :: cs) i) (name : String)
    (groups : List UnsetGroup) :
    (Interp.fireUnset j name (Flags.interpDestroyed.union .globalOnly) groups).Takes (contract i)
      cs c (Holds i L) (Holds i L) := fun s w h =>
  ((fires hL).fireUnset name _ groups s w (h.weaken fun hl => hl.resolve_right
    not_left_destroyed)).imp fun _ _ _ h => h.ended

/-! ### Variables -/

theorem keeping_store (r : VarRef) (v : Value) (flags : Flags) :
    Keeping i cs c (Interp.store j r v flags) := by
  refine keeping_calm fun w => ?_
  split
  · exact calm_of_eq rfl
  · rename_i hstore
    exact calm_withVars w j fun r' => Variables.tracesOn_store hstore r' ▸ List.Sublist.refl _

theorem keeping_removeTrace (name : String) (key : Option String) (flags : Flags)
    (client : String) : Keeping i cs c (Interp.removeTrace j name key flags client) :=
  keeping_calm fun w => calm_withVars w j (Variables.tracesOn_removeTrace _ _ flags client)

/-- What an unset takes away is fired as long as the interpreter is there. -/
theorem keeping_unset (name : String) (key : Option String) (flags : Flags) :
    Keeping i cs c (Interp.unset j name key flags) := by
  intro L hL s w h
  refine Program.abides_update_iff.2 fun s' hs => ?_
  cases hdetach : (w.interpreter j).vars.detach (VarRef.resolve name key) with
  | error e =>
    rw [hdetach] at hs
    have hcalm : Calm i w w := calm_of_eq rfl
    have hreport : Keeping i cs c (Interp.reportAccess j flags "unset"
        (VarRef.resolve name key) e.message) :=
      sequential.reportAccess (fun _ _ _ => takes_setResult _) _ _ _ _
    exact ⟨id, sequential.bind hreport (fun _ => sequential.pure _) L hL _ _ (h.calm hs hcalm)⟩
  | ok result =>
    obtain ⟨groups, vs⟩ := result
    rw [hdetach] at hs
    have hcalm : Calm i w (w.withInterpreter j fun s => { s with vars := vs }) :=
      calm_withVars w j (Variables.detached hdetach).sublist
    have hw := h.calm hs hcalm
    refine ⟨hcalm.disposed.trans, Program.Abides.bind (((fires hL).fireUnset _ _ groups _ _
      ⟨hw.fit, ?_⟩).imp fun _ _ _ h => h.ended)⟩
    rintro (hl | ⟨rfl, x, hx, -⟩)
    · exact hw.live hl
    · obtain ⟨g, hg, hx⟩ := List.mem_flatMap.1 hx
      obtain ⟨t, ht, -⟩ := List.mem_map.1 hx
      have hin := (List.mem_filter.1 ht).1
      rw [Variables.traces_of_mem_groups hdetach hg] at hin
      exact fun hs' => hcalm.disposed.trans (h.fit.live_of_mem hin (hs hs').1)

/-- Traces may be installed as long as the interpreter is there. -/
theorem takes_addTrace (hL : j = i → L) (name : String) (key : Option String) (t : Trace) :
    (Interp.addTrace j name key t).Takes (contract i) cs c (Holds i L) (Holds i L) := by
  refine .bind (.get fun _ => .pure _) fun v => ?_
  split
  · rename_i vs _
    exact .bind (.update (f := fun w => ((), w.withInterpreter j fun s => { s with vars := vs }))
      fun s w s' h hs => h.change hs rfl rfl rfl fun hj => .inl (hL hj)) fun _ => .pure _
  · exact takes_fail _

/-! ### Commands -/

/-- The interpreter has not been disposed of. -/
def Serving (i : Nat) (w : World) : Prop :=
  (w.interpreter i).disposed = false

theorem Serving.holds (h : Serving i w) : Holds i L s w :=
  ⟨.of_not_disposed h, fun _ _ => h⟩

/-- Programs that do not dispose of the interpreter. -/
abbrev Staying (i : Nat) (cs : List Call) (c : Call) : Program.Property :=
  fun _ p => p.Takes (contract i) cs c (fun _ w => Serving i w) fun _ w => Serving i w

theorem staying_sequential : Program.Sequential (Staying i cs c) :=
  Program.Takes.sequential _ _ _ _

theorem staying_update {f : World → α × World}
    (hf : ∀ w, ((f w).2.interpreter i).disposed = (w.interpreter i).disposed) :
    Staying i cs c (Program.update f) :=
  .update fun _ w _ h _ => ⟨(hf w).trans, (hf w).trans h⟩

theorem staying_modifyInterpreter {f : Interpreter → Interpreter}
    (hf : ∀ s, (f s).disposed = s.disposed) :
    Staying i cs c (Program.modifyInterpreter j f) :=
  staying_update (f := fun w => ((), w.withInterpreter j f)) fun _ =>
    World.apply_withInterpreter (·.disposed) (hf _) i

theorem staying_takeCommand (name : String) : Staying i cs c (Interp.takeCommand j name) :=
  staying_update fun _ => World.apply_withInterpreter (·.disposed) rfl i

theorem staying_putCommand (name : String) (command : Command) :
    Staying i cs c (Interp.putCommand j name command) :=
  staying_modifyInterpreter fun _ => rfl

theorem staying_runDelete (action : Option DeleteAction) :
    Staying i cs c (Interp.runDelete j action) := by
  refine takes_runDelete (fun _ _ _ w' h hw _ => ?_) action
  rwa [Serving, World.interpreter_congr hw i]

theorem staying_fail (message : String) : Staying i cs c (Interp.fail j message) :=
  staying_sequential.bind (staying_modifyInterpreter fun _ => rfl) fun _ =>
    staying_sequential.pure _

/-- As long as the interpreter is there, nothing more needs to be kept. -/
theorem keeping_of_staying {p : Program α} (hp : Staying i cs c p)
    (hgone : ∀ L, (L → Call.Holding (c :: cs) i) → ∀ s w, Holds i L s w → Disposal.Sealed i w →
      p.Abides (contract i) cs c (fun _ s' w' => Holds i L s' w') s w) : Keeping i cs c p := by
  intro L hL s w h
  cases hd : (w.interpreter i).disposed with
  | false => exact (hp s w hd).imp fun _ _ _ hw' => Serving.holds hw'
  | true => exact hgone L hL s w h (h.fit.sealed hd)

theorem keeping_takeCommand (name : String) : Keeping i cs c (Interp.takeCommand j name) := by
  refine keeping_calm fun w => calm_withInterpreter w j
    (f := fun s => { s with commands := s.commands.erase name }) rfl id (fun hc => ?_)
    fun _ => List.Sublist.refl _
  dsimp only
  rw [hc]
  exact Std.ExtTreeMap.erase_empty

theorem keeping_putCommand_of_ne (hj : j ≠ i) (name : String) (command : Command) :
    Keeping i cs c (Interp.putCommand j name command) :=
  keeping_modifyInterpreter_of_ne hj _

/-- An interpreter that has been disposed of takes no commands. -/
theorem keeping_createCommand (name : String) (command : Command) :
    Keeping i cs c (Interp.createCommand j name command) := by
  refine keeping_of_staying (staying_sequential.createCommand (staying_takeCommand name)
    staying_runDelete (staying_putCommand name command)) fun L hL s w h hsealed => ?_
  by_cases hj : j = i
  · subst hj
    refine Program.abides_reading_iff.2 ?_
    rw [if_pos hsealed.deleted]
    exact h
  · exact sequential.createCommand (keeping_takeCommand name) keeping_runDelete
      (keeping_putCommand_of_ne hj name command) L hL s w h

theorem keeping_deleteCommand (name : String) : Keeping i cs c (Interp.deleteCommand j name) :=
  sequential.deleteCommand (keeping_takeCommand name) keeping_runDelete

/-- An interpreter that has been disposed of has no command to rename. -/
theorem keeping_renameCommand (old new : String) :
    Keeping i cs c (Interp.renameCommand j old new) := by
  refine keeping_of_staying (staying_sequential.renameCommand staying_fail
    (staying_takeCommand old) (staying_sequential.deleteCommand (staying_takeCommand old)
      staying_runDelete) (staying_putCommand new)) fun L hL s w h hsealed => ?_
  by_cases hj : j = i
  · subst hj
    refine Program.abides_reading_iff.2 ?_
    have hnone : (w.interpreter j).hasCommand old = false := by
      rw [Interpreter.hasCommand, hsealed.commands, Std.ExtTreeMap.contains_empty]
    rw [hnone]
    exact takes_fail _ s w h
  · exact sequential.renameCommand (fun _ _ _ => takes_fail _) (keeping_takeCommand old)
      (keeping_deleteCommand old) (keeping_putCommand_of_ne hj new) L hL s w h

/-! ### Disposals -/

/-- The disposal has begun, and under `C` the commands are gone. -/
structure Ending (i : Nat) (cs : List Call) (C : Prop) (s : Bool) (w : World) : Prop where
  deleted : (w.interpreter i).deleted = true
  disposed : (w.interpreter i).disposed = true
  commands : C → (w.interpreter i).commands = ∅
  quiet : s = true → ¬Call.Holding cs i

theorem takes_takeCommands : (Interp.takeCommands i).Takes (contract i) cs c
    (Ending i (c :: cs) False) (Ending i (c :: cs) True) := by
  refine .update fun s w s' h hs => ?_
  have htaken : (w.withInterpreter i fun s => { s with commands := ∅ }).interpreter i =
      { w.interpreter i with commands := ∅ } := by
    rw [World.interpreter_withInterpreter_self]
  dsimp only
  refine ⟨fun hd => ?_, ?_, ?_, fun _ => ?_, fun hs' => h.quiet (hs hs').1⟩ <;> rw [htaken]
  · exact hd
  · exact h.deleted
  · exact h.disposed

/-- When the variables are gone, too, the interpreter is as it is left. -/
theorem takes_takeVariables (hL : L → Call.Holding (c :: cs) i) :
    (Interp.takeVariables i).Takes (contract i) cs c (Ending i (c :: cs) True) (Holds i L) := by
  refine .update fun s w s' h hs => ?_
  have htaken : (w.withInterpreter i fun s => { s with vars := ∅ }).interpreter i =
      { w.interpreter i with vars := ∅ } := by
    rw [World.interpreter_withInterpreter_self]
  dsimp only
  refine ⟨fun hd => ?_, ⟨fun _ => ⟨?_, ?_, ?_⟩, fun _ _ r => ?_⟩,
    fun hl hs' => absurd (hL hl) (h.quiet (hs hs').1)⟩ <;> rw [htaken]
  · exact hd
  · exact h.commands trivial
  · exact h.deleted
  · exact h.disposed
  · exact Variables.tracesOn_empty r

theorem takes_clear : (Program.modifyInterpreter j fun s => { s with vars := ∅ }).Takes (contract i)
    cs c (Holds i L) (Holds i L) :=
  takes_calm (f := fun w => ((), w.withInterpreter j fun s => { s with vars := ∅ })) fun w =>
    calm_withVars w j fun r => Variables.tracesOn_empty r ▸ List.nil_sublist _

/-- Only delete procedures are called before the commands and the variables are gone, and
the traces that are fired then are told that the interpreter is being taken down. -/
theorem takes_takeDown (hL : L → Call.Holding (c :: cs) i) :
    (Interp.takeDown i).Takes (contract i) cs c (Ending i (c :: cs) False) (Holds i L) := by
  refine .bind takes_takeCommands fun _ => .bind (.each fun _ _ => takes_runDelete ?_ _) fun _ =>
    .bind (takes_takeVariables hL) fun _ => .bind (.each fun _ _ =>
      takes_fireUnset_destroyed hL _ _) fun _ => takes_clear
  intro s w s' w' h hw hs
  have hsame := World.interpreter_congr hw i
  exact ⟨hsame ▸ h.deleted, hsame ▸ h.disposed, hsame ▸ h.commands, fun hs' => h.quiet (hs hs')⟩

theorem keeping_takeDown_of_ne (hj : j ≠ i) : Keeping i cs c (Interp.takeDown j) := by
  have hother : ∀ {β : Type} (g : World → β) (f : Interpreter → Interpreter), Keeping i cs c
      (Program.update fun w => (g w, w.withInterpreter j f)) := fun g f =>
    keeping_calm fun w => calm_withInterpreter_of_ne w hj f
  exact sequential.bind (hother _ _) fun _ => sequential.bind
    (sequential.each (fun _ => keeping_runDelete _) _) fun _ => sequential.bind (hother _ _)
      fun vars => sequential.bind (sequential.each (fun p L hL =>
        takes_fireUnset_destroyed hL _ _) vars) fun _ => keeping_modifyInterpreter_of_ne hj _

/-- A deleted interpreter may be disposed of. -/
theorem takes_dispose (hL : L → Call.Holding (c :: cs) i) :
    (Interp.dispose j).Takes (contract i) cs c
      (fun s w => Holds i L s w ∧ (j = i → (w.interpreter i).deleted = true)) (Holds i L) := by
  rintro s w ⟨h, hdeleted⟩
  rw [Interp.dispose_eq]
  refine Program.abides_get_iff.2 ?_
  split
  · exact h
  · rename_i hthere
    by_cases hj : j = i
    · subst hj
      refine fun s' hs => ⟨fun hd => absurd hd hthere, takes_takeDown hL s' _ ?_⟩
      have hmarked : (w.withInterpreter j fun s => { s with disposed := true }).interpreter j =
          { w.interpreter j with disposed := true } := by
        rw [World.interpreter_withInterpreter_self]
      refine ⟨?_, ?_, False.elim, fun hs' => (hs hs').2 (Bool.eq_false_iff.2 hthere) ?_⟩ <;>
        rw [hmarked]
      exact hdeleted rfl
    · exact Program.Takes.bind (keeping_modifyInterpreter_of_ne hj _ L hL)
        (fun _ => keeping_takeDown_of_ne hj L hL) s w h

theorem keeping_withPreserved (f : Nat → Nat) : Keeping i cs c
    (Program.modifyInterpreter j fun s => { s with preserved := f s.preserved }) :=
  keeping_calm (f := fun w => ((), w.withInterpreter j
    fun s => { s with preserved := f s.preserved })) fun w =>
      calm_withInterpreter w j (f := fun s => { s with preserved := f s.preserved }) rfl id id
        fun _ => List.Sublist.refl _

theorem keeping_release : Keeping i cs c (Interp.release j) := by
  refine sequential.bind (keeping_withPreserved (· - 1)) fun _ => ?_
  intro L hL s w h
  refine Program.abides_reading_iff.2 ?_
  split
  · rename_i hlast
    exact takes_dispose hL s w ⟨h, fun hj => hj ▸ hlast.2⟩
  · exact h

theorem keeping_delete : Keeping i cs c (Interp.delete j) := by
  intro L hL s w h
  refine Program.abides_reading_iff.2 ?_
  split
  · exact h
  · refine fun s' hs => ?_
    have hcalm : Calm i w (w.withInterpreter j fun s => { s with deleted := true }) :=
      calm_withInterpreter w j (f := fun s => { s with deleted := true }) rfl (fun _ => rfl) id
        fun _ => List.Sublist.refl _
    refine ⟨hcalm.disposed.trans, Program.abides_reading_iff.2 ?_⟩
    split
    · refine takes_dispose hL _ _ ⟨h.calm hs hcalm, fun hj => ?_⟩
      rw [World.interpreter_withInterpreter, if_pos hj]
    · exact h.calm hs hcalm

theorem unheld : Program.Unheld (Keeping i cs c) where
  toSequential := sequential
  spare hf := keeping_calm fun w => calm_of_interpreters (hf w).1
  withPreserved _ := keeping_withPreserved

/-! ### All programs -/

/-- What asks for an interpreter asks for one that is not deleted. -/
theorem disposed_of_live? (h : Fit i s w) {handle : Nat} (hi : Bridge.live? w handle = some i) :
    (w.interpreter i).disposed = false := by
  refine Bool.eq_false_iff.2 fun hd => ?_
  have hdeleted := (h.sealed hd).deleted
  unfold Bridge.live? at hi
  dsimp only at hi
  split at hi
  · cases hi
  · rename_i hnot
    obtain rfl := Option.some.inj hi
    rw [hdeleted, Bool.or_true] at hnot
    exact hnot rfl

theorem keeping_traceVar (handle : Nat) (name : String) (key : Option String) (flags : Flags)
    (function : Nat) : Keeping i cs c (Bridge.traceVar handle name key flags function) := by
  intro L hL s w h
  refine Program.abides_reading_iff.2 ?_
  cases hi : Bridge.live? w handle with
  | none => exact h
  | some j =>
    have hlive : j = i → Live i s w := fun hj _ => disposed_of_live? h.fit (hj ▸ hi)
    have hw : Holds i (L ∨ j = i) s w := ⟨h.fit, fun hP => hP.elim h.live hlive⟩
    have hinstall := Program.Takes.sequential (contract i) cs c (Holds i (L ∨ j = i))
    exact (hinstall.installTrace (takes_addTrace Or.inr name key _)
      (takes_modify fun _ => rfl) s w hw).imp fun _ _ _ hw' => hw'.weaken Or.inl

/-- The programs of all calls but those of the interpreter's own procedures. -/
theorem domestic : Program.Domestic (Keeping i cs c) where
  toSequential := sequential
  setResult _ _ _ _ := takes_setResult _
  fireTraces _ r _ _ := keeping_fireTraces r _
  invoke _ _ := keeping_request trivial nofun
  overflow _ _ _ := .overflow _
  update hf := keeping_calm fun w => calm_of_interpreters (hf w).interpreters
  evaluate _ _ := keeping_request trivial nofun
  interpreterStep _ _ := keeping_request trivial nofun
  modifyInterpreter _ _ hf _ _ := takes_plain hf
  store _ := keeping_store
  unset _ := keeping_unset

/-- The call neither invokes a command of the interpreter nor fires a trace of it. -/
structure Foreign (i : Nat) (c : Call) : Prop where
  command : ∀ words, c ≠ .invoke i words
  trace : ∀ t r flags later, c ≠ .fire i t r flags later

/-- A call that is not the interpreter's own may call the host at any time. -/
theorem conduct (hc : Foreign i c) : Program.Conduct (Keeping i cs c) where
  toDomestic := domestic
  request hd := keeping_request hd fun _ _ _ _ _ h => ⟨h,
    fun words _ he => absurd (List.cons.inj he).1 (hc.command words),
    fun t r flags later _ he => absurd (List.cons.inj he).1 (hc.trace t r flags later)⟩
  createCommand _ name _ _ := keeping_createCommand name _
  deleteCommand _ := keeping_deleteCommand
  delete _ := keeping_delete
  buildBundle := unheld.buildBundle
  teardown := unheld.teardown fun _ => keeping_release
  addInterpreter n := keeping_calm fun w => calm_addInterpreter w n
  addHandle _ _ := keeping_calm fun _ => calm_of_interpreters rfl
  destroy _ := sequential.destroy (keeping_modify fun _ => rfl) fun _ => keeping_delete
  register _ _ _ := sequential.register (fun _ => keeping_createCommand _ _)
    (keeping_modify fun _ => rfl)
  traceVar := keeping_traceVar
  untraceVar _ name key _ _ := sequential.untraceVar (fun _ => keeping_removeTrace name key)
    (keeping_modify fun _ => rfl)

theorem keeping_guarded {body : Program Status} (hbody : Keeping i cs c body) :
    Keeping i cs c (Interp.guarded j body) :=
  unheld.guarded (fun _ _ _ => takes_fail _) keeping_release hbody

/-! ### The interpreter calling the host -/

section Own

variable {J K : Bool → World → Prop}

/-- Lending the host to a program changes no interpreter. -/
theorem takes_withHost {p : Program α} (hJ : ∀ f : World → World,
      (∀ w, (f w).interpreters = w.interpreters) → (Program.modify f).Takes (contract i) cs c J J)
    (hK : ∀ f : World → World,
      (∀ w, (f w).interpreters = w.interpreters) → (Program.modify f).Takes (contract i) cs c K K)
    (hJK : ∀ s w, J s w → K s w) (hp : p.Takes (contract i) cs c J K) :
    (Bridge.withHost p).Takes (contract i) cs c J K := by
  refine .bind (.get fun _ => .pure _) fun w => ?_
  split
  · exact .bind (hJ _ fun _ => rfl) fun _ => .bind hp fun _ => .bind (hK _ fun _ => rfl) fun _ =>
      .pure _
  · exact fun s w h => hJK s w h

end Own

/-- A command that has been found calls the host at once. -/
theorem takes_callFor {words : List Value} (hc : c = .invoke i words)
    (hL : L → Call.Holding (c :: cs) i)
    (function : World → HostValue) (args : List Value) :
    (Bridge.callFor i function args).Takes (contract i) cs c
      (fun _ w => Serving i w) (Holds i L) := by
  have hhost : ∀ f args, (Program.callHost f args).Takes (contract i) cs c
      (fun _ w => Serving i w) (Holds i L) := by
    intro f args
    refine .request fun s w h _ => ⟨⟨.of_not_disposed h, fun _ _ _ => h,
      fun t r flags later rest he => ?_⟩, fun s' w' hw =>
        (Serving.holds h).kept (fun hl => (hL hl).cons _) hw⟩
    exact nomatch hc.symm.trans (List.cons.inj he).1
  refine .bind (takes_withHost (fun f hf => ?_) (fun f hf => takes_modify hf)
    (fun _ _ h => Serving.holds h) (.bind (.get fun _ => .pure _) fun w => .bind ?_ fun args =>
      .bind (hhost _ _) fun r => domestic.returnTo i r L hL)) fun status => ?_
  · exact staying_update (f := fun w => ((), f w)) fun w => by rw [World.interpreter_congr (hf w) i]
  · exact staying_update fun _ => rfl
  · split
    · exact .pure _
    · exact takes_fail _

theorem takes_perform {words : List Value} (hc : c = .invoke i words)
    (hL : L → Call.Holding (c :: cs) i)
    (procedure : Procedure) (args : List Value) :
    (Scenario.perform i procedure args).Takes (contract i) cs c
      (fun _ w => Serving i w) (Holds i L) := by
  cases procedure with
  | builtin b =>
    exact fun s w h => domestic.runBuiltin b i keeping_renameCommand args L hL s w
      (Serving.holds h)
  | callGlobal =>
    change (Bridge.callGlobal i args).Takes _ _ _ _ _
    unfold Bridge.callGlobal
    split
    · exact takes_callFor hc hL _ _
    · exact fun _ _ h => Serving.holds h
  | callRegistered handle key => exact takes_callFor hc hL _ _
  | scripted label body result status =>
    exact fun s w h => domestic.runCommand i label body result status args L hL s w
      (Serving.holds h)

theorem takes_depth (f : Nat → Nat) :
    (Program.modifyInterpreter j fun s => { s with depth := f s.depth }).Takes (contract i) cs c
      (Holds i L) (Holds i L) :=
  takes_calm (f := fun w => ((), w.withInterpreter j fun s => { s with depth := f s.depth }))
    fun w => calm_withInterpreter w j (f := fun s => { s with depth := f s.depth }) rfl id id
      fun _ => List.Sublist.refl _

/-- An invocation finds a command only if the interpreter has not been disposed of. -/
theorem keeping_invoke (words : List Value) : Keeping i cs (.invoke i words)
    (Interp.invokeWith Scenario.perform i words) := by
  intro L hL s w h
  cases words with
  | nil => exact h
  | cons first rest =>
    refine Program.abides_reading_iff.2 ?_
    split
    · exact takes_fail _ s w h
    · split
      · exact takes_fail _ s w h
      · rename_i command hfound
        have hserving : Serving i w := by
          refine Bool.eq_false_iff.2 fun hd => ?_
          rw [(h.fit.sealed hd).commands, Std.ExtTreeMap.getElem?_empty] at hfound
          cases hfound
        have hreset : Staying i cs (.invoke i (first :: rest)) (Interp.resetResult i) :=
          staying_modifyInterpreter fun _ => rfl
        have henter : Staying i cs (.invoke i (first :: rest)) (Interp.enterCommand i) :=
          staying_modifyInterpreter fun _ => rfl
        exact Program.Takes.bind hreset (fun _ =>
          .bind henter fun _ => .bind (takes_perform rfl hL _ _) fun _ =>
            .bind (takes_depth (· - 1)) fun _ => .pure _) s w hserving

/-- The function of a trace is called while the interpreter is there. -/
theorem takes_callTraced {t : Trace} {r : VarRef} {flags : Flags} {later : List Firing}
    (hc : c = .fire i t r flags later) (hP : P) (handle : Nat) (client : String) :
    (Bridge.callTraced i handle client r flags).Takes (contract i) cs c (Holds i P)
      (Holds i (P ∧ Call.Holding (c :: cs) i)) := by
  refine .bind (.get fun _ => .pure _) fun _ => .bind (.get fun _ => .pure _) fun _ =>
    .bind (takes_setResult _) fun _ => .bind (.request fun s w h _ => ⟨⟨h.fit,
      fun words rest he => ?_, fun _ _ _ _ _ _ => h.live hP⟩, fun s' w' hw => ?_⟩) fun _ =>
    .bind (takes_setResult _) fun _ => .pure _
  · exact nomatch hc.symm.trans (List.cons.inj he).1
  · exact (h.weaken And.left).kept (fun hl => hl.2.cons _) hw

/-- A trace is fired while the interpreter is there, or it does nothing. -/
theorem takes_fireTrace {t : Trace} {r : VarRef} {flags : Flags} {later : List Firing}
    (hc : c = .fire i t r flags later) (hP : flags.contains .interpDestroyed = false → P) :
    (Scenario.fireTrace i t r flags).Takes (contract i) cs c (Holds i P)
      (Holds i (P ∧ Call.Holding (c :: cs) i)) := by
  have hleft : ∀ {α : Type} (b : α), (Pure.pure b : Program α).Takes (contract i) cs c (Holds i P)
      (Holds i (P ∧ Call.Holding (c :: cs) i)) := fun _ _ _ h => h.weaken And.left
  unfold Scenario.fireTrace
  split
  · exact fun s w h => domestic.runTrace i _ _ _ r flags _ And.right s w (h.weaken And.left)
  · unfold Bridge.fire
    split
    · exact hleft _
    · rename_i htold
      rw [Bool.not_eq_true] at htold
      split
      · refine .bind (takes_addTrace (fun _ => hP htold) _ _ t) fun status => ?_
        split
        · exact .bind (.get fun _ => .pure _) fun _ => hleft _
        · exact hleft _
      · exact .bind (takes_withHost (fun _ => takes_modify) (fun _ => takes_modify)
          (fun _ _ h => h.weaken And.left) (takes_callTraced hc (hP htold) _ _)) fun _ => .pure _

/-- A delete procedure leaves all interpreters alone. -/
theorem takes_runDeleteAction {v : World} {s₁ : Bool} (action : DeleteAction) :
    (Scenario.runDeleteAction j action).Takes (contract i) cs (.deleted j action)
      (fun s w => w.interpreters = v.interpreters ∧ (s = true → s₁ = true))
      (fun s w => w.interpreters = v.interpreters ∧ (s = true → s₁ = true)) := by
  have hmodify : ∀ f : World → World, (∀ w, (f w).interpreters = w.interpreters) →
      (Program.modify f).Takes (contract i) cs (.deleted j action)
        (fun s w => w.interpreters = v.interpreters ∧ (s = true → s₁ = true))
        (fun s w => w.interpreters = v.interpreters ∧ (s = true → s₁ = true)) := by
    refine fun f hf => .update (f := fun w => ((), f w)) fun s w s' h hs => ⟨?_, ?_⟩
    · exact (calm_of_interpreters (hf w)).disposed.trans
    · exact ⟨(hf w).trans h.1, fun hs' => h.2 (hs hs').1⟩
  cases action with
  | forget handle key => exact hmodify _ fun _ => rfl
  | scripted label body =>
    refine .bind (hmodify _ fun _ => rfl) fun _ => .each fun step _ => .bind ?_ fun _ =>
      hmodify _ fun _ => rfl
    exact .request fun _ _ _ hcalls => absurd rfl (hcalls.1 j step)

/-! ### All calls -/

/-- The programs of all calls that are neither traces of the interpreter nor delete
procedures. -/
theorem keeping_handle (hs : ∀ j step, c ≠ .interpreterStep j step)
    (hfire : ∀ t r flags later, c ≠ .fire i t r flags later)
    (hdelete : ∀ j action, c ≠ .deleted j action) :
    Keeping i cs c (Scenario.handle c) := by
  by_cases hinvoke : ∃ words, c = .invoke i words
  · obtain ⟨words, rfl⟩ := hinvoke
    exact keeping_invoke words
  · have h : Program.Conduct (Keeping i cs c) :=
      conduct ⟨fun words he => hinvoke ⟨words, he⟩, hfire⟩
    cases c with
    | eval j script =>
      exact keeping_guarded (h.bind (h.setResult j _) fun _ => h.runScript j _)
    | evalWords j words => exact keeping_guarded (h.invoke j words)
    | invoke j words =>
      have hcount : ∀ f : Nat → Nat, Keeping i cs (.invoke j words)
          (Program.modifyInterpreter j fun s => { s with depth := f s.depth }) := fun f _ _ =>
        takes_depth f
      exact h.invokeWith (h.performProcedure h.callHost fun _ => keeping_renameCommand) j
        (hcount (· + 1)) (hcount (· - 1)) words
    | fire j t r flags later =>
      have hj : j ≠ i := fun hj => hfire t r flags later (congrArg (Call.fire · t r flags later) hj)
      exact h.fireTrace j t r flags fun L hL => takes_addTrace (fun hi => absurd hi hj) _ _ t
    | deleted j action => exact absurd rfl (hdelete j action)
    | host f args => exact h.callValue f args
    | interpreterStep j step => exact absurd rfl (hs j step)
    | bridgeStep step => exact h.runBridgeStep step

theorem fit_of_pre (hdelete : ∀ j action, c ≠ .deleted j action)
    (h : (contract i).Pre cs c s w) : Fit i s w := by
  cases c with
  | deleted j action => exact absurd rfl (hdelete j action)
  | fire => exact h.1
  | host => exact h.fit
  | eval | evalWords | invoke | interpreterStep | bridgeStep => exact h

theorem post_of_kept (hdelete : ∀ j action, c ≠ .deleted j action)
    (h : Kept i (c :: cs) s w s' w') : (contract i).Post cs c s w s' w' := by
  cases c with
  | deleted j action => exact absurd rfl (hdelete j action)
  | eval | evalWords | invoke | fire | host | interpreterStep | bridgeStep => exact h

/-- No call breaks what is left of an interpreter. -/
theorem holds (i : Nat) : (contract i).Holds Scenario.handle := by
  intro cs c s w hs hpre
  by_cases hdelete : ∃ j action, c = .deleted j action
  · obtain ⟨j, action, rfl⟩ := hdelete
    exact takes_runDeleteAction action s w ⟨rfl, id⟩
  · have hdelete : ∀ j action, c ≠ .deleted j action := fun j action he => hdelete ⟨j, action, he⟩
    have hfit := fit_of_pre hdelete hpre
    suffices (Scenario.handle c).Abides (contract i) cs c (fun _ s' w' => Holds i
        (Live i s w ∧ Call.Holding (c :: cs) i) s' w') s w from
      this.imp fun _ _ _ h => post_of_kept hdelete ⟨h.fit, fun hholding hlive =>
        h.live ⟨hlive, hholding⟩⟩
    by_cases hfire : ∃ t r flags later, c = .fire i t r flags later
    · obtain ⟨t, r, flags, later, rfl⟩ := hfire
      exact takes_fireTrace rfl (hpre.2 rfl) s w ⟨hfit, id⟩
    · exact keeping_handle hs.1 (fun t r flags later he => hfire ⟨t, r, flags, later, he⟩) hdelete _
        And.right s w ⟨hfit, And.left⟩

theorem between (i : Nat) : (contract i).Between (Fit i) where
  pre c s w hs h := by
    cases c with
    | deleted => trivial
    | fire j t r flags later =>
      exact ⟨h, fun hj => absurd (hj ▸ rfl) (hs.2 t r flags later rfl)⟩
    | host => exact ⟨h, nofun, nofun⟩
    | eval | evalWords | invoke | interpreterStep | bridgeStep => exact h
  post c s w s' w' h hpost := by
    cases c with
    | deleted => exact ((calm_of_interpreters hpost.1).fit s h).mono hpost.2
    | eval | evalWords | invoke | fire | host | interpreterStep | bridgeStep => exact hpost.fit
  aside s _ _ h ha := (calm_of_interpreters ha.interpreters).fit s h

end Silence

/-- **An interpreter that has been disposed of leaves the host alone.**  Whatever calls the
host makes one after the other and however calls lead into each other: once the interpreter
has been disposed of it stays so, and when a function of the host is called, it is not by a
command of the interpreter, be it a registered one or the one that calls globals; nor is it
by a trace of the interpreter, unless a loop in progress had still to fire one when it was
disposed of. -/
theorem Machine.Watched.left_alone {i : Nat} {s₀ : Bool} {w₀ : World}
    (h₀ : (w₀.interpreter i).disposed = false) {root : Call} {m : Machine root} {s : Bool}
    (hm : m.Watched (orderly i) Scenario.handle s₀ w₀ s)
    (hd : (m.world.interpreter i).disposed = true) :
    (∀ s' m', Machine.LeadsWith (orderly i) Scenario.handle (s, m) (s', m') →
        (m'.world.interpreter i).disposed = true) ∧
      ∀ f args k, m.code = .call (.host f args) k →
        (∀ words, m.current ≠ .invoke i words) ∧
          (s = true → ∀ t r flags later, m.current ≠ .fire i t r flags later) := by
  have hfit : Silence.Fit i s₀ w₀ := .of_not_disposed h₀
  refine ⟨fun s' m' hstep => ?_, fun f args k hcode => ?_⟩
  · rcases hm.change (Silence.holds i) (Silence.between i) hfit hstep with ⟨-, hw⟩ | hchange
    · rwa [hw]
    · exact hchange hd
  · obtain ⟨hcall, -⟩ := hm.boundary (Silence.holds i) (Silence.between i) hfit
    have hinvited := hcall _ k hcode ⟨nofun, nofun⟩
    rw [m.stack.calls_eq] at hinvited
    refine ⟨fun words he => ?_, fun hs t r flags later he => ?_⟩
    · exact nomatch hd.symm.trans (hinvited.command words _ (congrArg (· :: m.stack.callers) he))
    · exact nomatch hd.symm.trans
        (hinvited.trace t r flags later _ (congrArg (· :: m.stack.callers) he) hs)

/-! ### An interpreter that is destroyed by the host -/

namespace Machine

variable {root : Call} {m : Machine root}

/-- Whether a machine is about to call the host. -/
def callsHost (m : Machine root) : Bool :=
  match m.code with
  | .call (.host ..) _ => true
  | _ => false

theorem code_of_callsHost (h : m.callsHost = true) :
    ∃ f args k, m.code = .call (.host f args) k := by
  unfold callsHost at h
  split at h
  · rename_i f args k hcode
    exact ⟨f, args, k, hcode⟩
  · cases h

/-- Whether a machine is firing a trace of the interpreter. -/
def isFiring (i : Nat) (m : Machine root) : Bool :=
  match m.current with
  | .fire j .. => j == i
  | _ => false

theorem current_of_isFiring {i : Nat} (h : m.isFiring i = true) :
    ∃ t r flags later, m.current = .fire i t r flags later := by
  unfold isFiring at h
  split at h
  · rename_i t r flags later hcurrent
    obtain rfl := beq_iff_eq.1 h
    exact ⟨t, r, flags, later, hcurrent⟩
  · cases h

end Machine

instance Call.decidableHolding (cs : List Call) (i : Nat) : Decidable (Call.Holding cs i) :=
  decidable_of_iff (∃ c ∈ cs, ∃ x ∈ c.remaining i, x.flags.contains .interpDestroyed = false)
    ⟨fun ⟨c, hc, x, hx, hflags⟩ => ⟨x, ⟨c, hc, hx⟩, hflags⟩,
      fun ⟨x, ⟨c, hc, hx⟩, hflags⟩ => ⟨c, hc, x, hx, hflags⟩⟩

/-- Whether it can be seen that the interpreter is not disposed of while a loop has still to
fire a trace of it. -/
def Silence.proceeds (i : Nat) {root : Call} (m : Machine root) : Bool :=
  match m.code with
  | .set w' _ => (m.world.interpreter i).disposed || !(w'.interpreter i).disposed ||
      !decide (Call.Holding (m.current :: m.stack.callers) i)
  | .call (.interpreterStep ..) _ => false
  | _ => true

theorem Silence.leadsWith_of_proceeds {i : Nat} {root : Call} {handler : Machine.Handler}
    (m m' : Machine root) (h : proceeds i m = true) (hstep : m.step handler = .inl m') :
    Machine.LeadsWith (orderly i) handler (true, m) (true, m') := by
  refine Machine.leadsWith_self hstep (fun w' p hcode => ?_) fun d k hcode => ?_
  · rw [proceeds, hcode] at h
    dsimp only at h
    rw [Bool.or_eq_true, Bool.or_eq_true, Bool.not_eq_true', Bool.not_eq_true',
      decide_eq_false_iff_not] at h
    refine fun _ => ⟨rfl, fun hbefore hafter => ?_⟩
    rcases h with (hd | hd) | hquiet
    · cases hbefore.symm.trans hd
    · cases hafter.symm.trans hd
    · exact hquiet
  · rw [proceeds, hcode] at h
    refine ⟨fun j step he => ?_, fun _ _ _ _ hcs => absurd hcs (List.cons_ne_nil _ _)⟩
    subst he
    cases h

/-- Of two traces of a variable the second destroys the interpreter, while the variable is
being read, and has a function called then. -/
theorem Machine.Watched.left_alone_destroyed :
    let w := World.staged [.scripted "f" (.ofActions · [.step { op := .destroy "m" },
      .step { op := .hostCall (.ref "g") [] }]), .silent "g"] [(.traceReads, 1), (.traceReads, 0)]
    (w.interpreter 0).disposed = false ∧
    ∃ m : Machine (.bridgeStep { op := .getVar "m" "a" none .none }),
      m.Watched (orderly 0) Scenario.handle true w true ∧
      (m.world.interpreter 0).disposed = true ∧
      ∃ f args k, m.code = .call (.host f args) k ∧
        (∀ words, m.current ≠ .invoke 0 words) ∧
          ∀ t r flags later, m.current ≠ .fire 0 t r flags later := by
  intro w
  have h₀ : (w.interpreter 0).disposed = false := by decide +kernel
  have hstart : Machine.Watched (orderly 0) Scenario.handle true w true (.start Scenario.handle
      (.bridgeStep { op := .getVar "m" "a" none .none }) w) := .start ⟨nofun, nofun⟩
  have hwalk : (Machine.walk Scenario.handle (Silence.proceeds 0) 88 (.start Scenario.handle
      (.bridgeStep { op := .getVar "m" "a" none .none }) w)).map
      (fun m => (m.world.interpreter 0).disposed && m.callsHost) = some true := by
    decide +kernel
  obtain ⟨m, hwalk, hend⟩ := Option.map_eq_some_iff.1 hwalk
  have hm := hstart.walk Silence.leadsWith_of_proceeds hwalk
  obtain ⟨hd, hhost⟩ := Bool.and_eq_true_iff.1 hend
  obtain ⟨f, args, k, hcode⟩ := Machine.code_of_callsHost hhost
  have halone := (hm.left_alone h₀ hd).2 f args k hcode
  exact ⟨h₀, m, hm, hd, f, args, k, hcode, halone.1, halone.2 rfl⟩

/-- Of two traces of a variable the first destroys the interpreter, while the variable is
being read; the function of the second is called though the interpreter has been disposed
of. -/
theorem Silence.called_after_disposal :
    let w := World.staged [.silent "f", .scripted "g" (.ofActions · [.step { op := .destroy "m" }])]
      [(.traceReads, 1), (.traceReads, 0)]
    (w.interpreter 0).disposed = false ∧
    ∃ m : Machine (.bridgeStep { op := .getVar "m" "a" none .none }),
      m.Occurs {} Scenario.handle w ∧ (m.world.interpreter 0).disposed = true ∧
      ∃ f args k t r flags later, m.code = .call (.host f args) k ∧
        m.current = .fire 0 t r flags later := by
  intro w
  have hwalk : (Machine.walk Scenario.handle (fun _ => true) 74 (.start Scenario.handle
      (.bridgeStep { op := .getVar "m" "a" none .none }) w)).map
      (fun m => (m.world.interpreter 0).disposed && (m.callsHost && m.isFiring 0)) =
        some true := by
    decide +kernel
  obtain ⟨m, hwalk, hend⟩ := Option.map_eq_some_iff.1 hwalk
  have hstart : Machine.Occurs {} Scenario.handle w (.start Scenario.handle
      (.bridgeStep { op := .getVar "m" "a" none .none }) w) := .start trivial
  have hm := hstart.walk (fun _ _ _ => Machine.leads_of_step) hwalk
  obtain ⟨hd, hend⟩ := Bool.and_eq_true_iff.1 hend
  obtain ⟨hhost, hfiring⟩ := Bool.and_eq_true_iff.1 hend
  obtain ⟨f, args, k, hcode⟩ := Machine.code_of_callsHost hhost
  obtain ⟨t, r, flags, later, hcurrent⟩ := Machine.current_of_isFiring hfiring
  exact ⟨by decide +kernel, m, hm, hd, f, args, k, t, r, flags, later, hcode, hcurrent⟩

end CommandBridge
