/-
# Interpreters to which nothing has been added

A bare interpreter has built-in commands only, which have no delete procedures, and no
traces (`Interpreter.Bare`).  What it evaluates runs no code but its own: nothing is fired
when a variable is read, written or unset, and nothing is run when a command goes.

So a property of programs of such an interpreter (`Program.Under`) is shown without the
calls that fire traces and run delete procedures (`Program.Under.domesticOn`,
`Program.Under.renameCommand`).  It may be one of programs that start in certain worlds
only, as long as these are no less after each step of the interpreter
(`Interpreter.Upkeep`).
-/

import CommandBridge.Proofs.Interpreter.Conduct
import CommandBridge.Proofs.Interpreter.TraceTable

namespace CommandBridge

/-- The commands of the interpreter are built-in ones that have no delete procedures, and
no variable is traced. -/
structure Interpreter.Bare (s : Interpreter) : Prop where
  builtin {name : String} {c : Command} (h : s.commands[name]? = some c) :
    ∃ b, c = { procedure := .builtin b }
  untraced (r : VarRef) : s.vars.tracesOn r = []

namespace Interpreter

namespace Bare

variable {s : Interpreter}

theorem tracesFor_eq (h : s.Bare) (r : VarRef) (op : Flags) : s.vars.tracesFor r op = [] :=
  Variables.Untraced.tracesFor_eq h.untraced r op

/-- Anything but the commands and the variables may change. -/
theorem congr (h : s.Bare) {s' : Interpreter} (hc : s'.commands = s.commands)
    (hv : s'.vars = s.vars) : s'.Bare where
  builtin hb := h.builtin (hc ▸ hb)
  untraced r := by rw [hv, h.untraced]

theorem withVars (h : s.Bare) {vs : Variables} (hvs : ∀ r, vs.tracesOn r = []) :
    Bare { s with vars := vs } where
  builtin := h.builtin
  untraced := hvs

theorem erase (h : s.Bare) (name : String) :
    Bare { s with commands := s.commands.erase name } where
  untraced := h.untraced
  builtin hb := by
    dsimp only at hb
    rw [getElem?_erase_name] at hb
    split at hb
    · cases hb
    · exact h.builtin hb

theorem insert (h : s.Bare) (name : String) (b : Builtin) :
    Bare { s with commands := s.commands.insert name { procedure := .builtin b } } where
  untraced := h.untraced
  builtin hb := by
    dsimp only at hb
    rw [getElem?_insert_name] at hb
    split at hb
    · exact ⟨b, (Option.some.inj hb).symm⟩
    · exact h.builtin hb

end Bare

/-- A property of the worlds in which an interpreter is bare, that it has as well after a
step that leaves it bare and neither counts the depth nor takes it down. -/
structure Upkeep (i : Nat) (I : World → Prop) : Prop where
  bare {w : World} (h : I w) : (w.interpreter i).Bare
  aside {w w' : World} (h : I w) (ha : w.Aside w') : I w'
  change {w : World} {f : Interpreter → Interpreter} (h : I w) (hbare : (f (w.interpreter i)).Bare)
    (hdepth : (f (w.interpreter i)).depth = (w.interpreter i).depth)
    (hlimit : (f (w.interpreter i)).maxNesting = (w.interpreter i).maxNesting)
    (hdeleted : (f (w.interpreter i)).deleted = (w.interpreter i).deleted) :
    I (w.withInterpreter i f)

namespace Upkeep

variable {i : Nat} {I : World → Prop} {w : World}

theorem withVars (hI : Upkeep i I) (hw : I w) {vs : Variables} (hvs : ∀ r, vs.tracesOn r = []) :
    I (w.withInterpreter i fun s => { s with vars := vs }) :=
  hI.change hw ((hI.bare hw).withVars hvs) rfl rfl rfl

theorem erase (hI : Upkeep i I) (hw : I w) (name : String) :
    I (w.withInterpreter i fun s => { s with commands := s.commands.erase name }) :=
  hI.change hw ((hI.bare hw).erase name) rfl rfl rfl

end Upkeep
end Interpreter

namespace Program

/-- A property of programs that start in a world with the property `I`: sequences have it,
and a program has it that looks at the world or changes it and goes on accordingly. -/
structure Under (I : World → Prop) (Ok : Property) : Prop extends Sequential Ok where
  reading {α β : Type} {f : World → α} {k : α → Program β} (hk : ∀ w, I w → Ok (k (f w))) :
    Ok (Program.reading f >>= k)
  updating {α β : Type} {f : World → α × World} {k : α → Program β}
    (hk : ∀ w, I w → I (f w).2 ∧ Ok (k (f w).1)) : Ok (Program.update f >>= k)

namespace Under

variable {i : Nat} {I : World → Prop} {Ok : Property} {α : Type}

theorem update (h : Under I Ok) {f : World → α × World} (hf : ∀ w, I w → I (f w).2) :
    Ok (Program.update f) :=
  bind_pure (Program.update f) ▸ h.updating fun w hw => ⟨hf w hw, h.pure _⟩

theorem modifyInterpreter (h : Under I Ok) {f : Interpreter → Interpreter}
    (hf : ∀ w, I w → I (w.withInterpreter i f)) : Ok (Program.modifyInterpreter i f) :=
  h.update (f := fun w => ((), w.withInterpreter i f)) hf

section Upkeep

variable (h : Under I Ok) (hI : Interpreter.Upkeep i I)
include h hI

/-- What the commands and the variables take no part in is of no account. -/
theorem modifyRest {f : Interpreter → Interpreter} (hc : ∀ s, (f s).commands = s.commands)
    (hv : ∀ s, (f s).vars = s.vars) (hdepth : ∀ s, (f s).depth = s.depth)
    (hlimit : ∀ s, (f s).maxNesting = s.maxNesting) (hdeleted : ∀ s, (f s).deleted = s.deleted) :
    Ok (Program.modifyInterpreter i f) :=
  h.modifyInterpreter fun _ hw =>
    hI.change hw ((hI.bare hw).congr (hc _) (hv _)) (hdepth _) (hlimit _) (hdeleted _)

theorem setResult (v : Value) : Ok (Interp.setResult i v) :=
  h.modifyRest hI (fun _ => rfl) (fun _ => rfl) (fun _ => rfl) (fun _ => rfl) fun _ => rfl

/-! ### Variables -/

/-- There are no traces to fire. -/
theorem fireTraces (r : VarRef) (op flags : Flags) : Ok (Interp.fireTraces i r op flags) := by
  refine h.reading fun w hw => ?_
  dsimp only
  rw [(hI.bare hw).tracesFor_eq, List.isEmpty_nil, Bool.or_true, if_pos rfl]
  exact h.pure _

theorem basicOn (hinvoke : ∀ words, Ok (Program.invoke i words)) : BasicOn i Ok where
  toSequential := h.toSequential
  setResult := h.setResult hI
  fireTraces r {_} _ flags := h.fireTraces hI r _ flags
  invoke := hinvoke

theorem store (r : VarRef) (v : Value) (flags : Flags) : Ok (Interp.store i r v flags) := by
  refine h.update fun w hw => ?_
  split
  · exact hw
  · rename_i hstore
    exact hI.withVars hw (Variables.Untraced.store (hI.bare hw).untraced hstore)

/-- A group without traces fires none. -/
theorem fireGroup (name : String) (extra : Flags) {g : UnsetGroup} (hg : g.traces = [])
    (others : List UnsetGroup) : Ok (Interp.fireGroup i name extra g others) := by
  have hactive : ∀ f : List VarRef → List VarRef,
      Ok (Program.modifyInterpreter i fun s => { s with active := f s.active }) := fun f =>
    h.modifyRest hI (fun _ => rfl) (fun _ => rfl) (fun _ => rfl) (fun _ => rfl) fun _ => rfl
  refine h.bind (h.interpreter i) fun s => ?_
  rw [Interp.groupTraces, hg, List.filter_nil]
  split
  · exact h.pure _
  · exact h.bind (hactive _) fun _ => h.bind (h.pure _) fun _ => hactive _

theorem fireUnset (name : String) (extra : Flags) {groups : List UnsetGroup}
    (hg : ∀ g ∈ groups, g.traces = []) : Ok (Interp.fireUnset i name extra groups) := by
  induction groups with
  | nil => exact h.pure _
  | cons g groups ih =>
    exact h.bind (h.fireGroup hI name extra (hg g List.mem_cons_self) groups) fun _ =>
      ih fun g' hg' => hg g' (List.mem_cons_of_mem g hg')

theorem unset (name : String) (key : Option String) (flags : Flags) :
    Ok (Interp.unset i name key flags) := by
  refine h.updating fun w hw => ?_
  cases hdetach : (w.interpreter i).vars.detach (VarRef.resolve name key) with
  | error e =>
    exact ⟨hw, h.bind (h.reportAccess (h.setResult hI) ..) fun _ => h.pure _⟩
  | ok p =>
    obtain ⟨groups, vs⟩ := p
    obtain ⟨hvs, hgroups⟩ := Variables.Untraced.detach (hI.bare hw).untraced hdetach
    exact ⟨hI.withVars hw hvs, h.bind (h.fireUnset hI _ _ hgroups) fun _ => h.pure _⟩

theorem domesticOn (hinvoke : ∀ words, Ok (Program.invoke i words))
    (hevaluate : ∀ source, Ok (Program.eval i source)) : DomesticOn i Ok where
  toBasicOn := h.basicOn hI hinvoke
  update hf := h.update fun w hw => hI.aside hw (hf w)
  evaluate := hevaluate
  modifyInterpreter hf := h.modifyRest hI (fun s => (hf.tables s).1) (fun s => (hf.tables s).2.1)
    (fun s => by rw [hf s]) (fun s => by rw [hf s]) fun s => (hf.lifetime s).2.1
  store := h.store hI
  unset := h.unset hI

/-! ### Commands -/

/-- What is taken away is a built-in command, which has no delete procedure. -/
theorem takingCommand {name : String} {k : Option Command → Program α} (hnone : Ok (k none))
    (hsome : ∀ b, Ok (k (some { procedure := .builtin b }))) :
    Ok (Interp.takeCommand i name >>= k) := by
  refine h.updating fun w hw => ⟨hI.erase hw name, ?_⟩
  dsimp only
  cases hc : (w.interpreter i).commands[name]? with
  | none => exact hnone
  | some command =>
    obtain ⟨b, rfl⟩ := (hI.bare hw).builtin hc
    exact hsome b

theorem deleteCommand (name : String) : Ok (Interp.deleteCommand i name) :=
  h.takingCommand hI (h.pure _) fun _ => h.bind (h.pure _) fun _ => h.pure _

/-- What gets another name is a built-in command. -/
theorem renameCommand (old new : String) : Ok (Interp.renameCommand i old new) := by
  have hfail : ∀ message, Ok (Interp.fail i message) := fun _ =>
    h.bind (h.setResult hI _) fun _ => h.pure _
  refine h.bind (h.interpreter i) fun s => ?_
  split
  · exact hfail _
  · split
    · exact h.bind (h.deleteCommand hI old) fun _ => h.pure _
    · split
      · exact hfail _
      · refine h.takingCommand hI (h.pure _) fun b => h.bind ?_ fun _ => h.pure _
        exact h.modifyInterpreter fun w hw =>
          hI.change hw ((hI.bare hw).insert new b) rfl rfl rfl

end Upkeep
end Under
end Program
end CommandBridge
