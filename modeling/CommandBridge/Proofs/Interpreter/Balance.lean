/-
# Balanced evaluation

Evaluations, accesses to variables and invocations count themselves: an invocation the
depth, the traces of a variable the variables whose traces are firing, an evaluation and
a guard the uses of the interpreter.  What is counted is counted off again on every way
out, so everything that a program does leaves the depth and the firing traces as it found
them, and the uses but for those of guards and bundles (`Level`).

The depth never exceeds the limit, and no variable or element is twice among those whose
traces are firing (`Bounded`), since both are looked up before they are counted.

Raw uses, which belong to nobody, are left out where uses are counted (`counting`).
-/

import CommandBridge.Proofs.Interpreter.Disposal
import CommandBridge.Proofs.Run.CallLog
import Mathlib.Tactic.SplitIfs

namespace CommandBridge

/-- A step by which a use of an interpreter begins or ends that belongs to nobody. -/
def Call.IsRawUse : Call → Prop
  | .interpreterStep _ .preserve => True
  | .interpreterStep _ .release => True
  | _ => False

/-- The runs in which there are no raw uses if uses are counted. -/
def counting (P : Prop) : Scope where
  calls _ c _ := P → ¬c.IsRawUse

namespace World

/-- The depth of an interpreter is within its limit, which allows for one level at least,
and no variable or element is entered twice among those whose traces are firing. -/
structure Bounded (i : Nat) (w : World) : Prop where
  depth_le : (w.interpreter i).depth ≤ (w.interpreter i).maxNesting
  limit_pos : 0 < (w.interpreter i).maxNesting
  distinct : (w.interpreter i).active.Nodup

theorem bounded_of_eq {i : Nat} {w w' : World} (h : w.Bounded i)
    (hd : (w'.interpreter i).depth = (w.interpreter i).depth)
    (hm : (w'.interpreter i).maxNesting = (w.interpreter i).maxNesting)
    (ha : (w'.interpreter i).active = (w.interpreter i).active) : w'.Bounded i :=
  ⟨by rw [hd, hm]; exact h.depth_le, by rw [hm]; exact h.limit_pos, by rw [ha]; exact h.distinct⟩

theorem Bounded.of_interpreters {i : Nat} {w w' : World} (h : w.Bounded i)
    (hi : w'.interpreters = w.interpreters) : w'.Bounded i := by
  have hi := interpreter_congr hi i
  exact bounded_of_eq h (by rw [hi]) (by rw [hi]) (by rw [hi])

/-- A new interpreter is within its limit. -/
theorem bounded_of_new {i n : Nat} {w : World} (h : w.interpreter i = .new n) : w.Bounded i :=
  ⟨by rw [h]; exact Nat.zero_le _, by rw [h]; exact Interpreter.maxNesting_new_pos n,
    by rw [h]; exact List.nodup_nil⟩

theorem preserved_preserve (w : World) (i j : Nat) :
    ((w.withInterpreter j fun s => { s with preserved := s.preserved + 1 }).interpreter
      i).preserved = (w.interpreter i).preserved + if j = i then 1 else 0 := by
  rw [interpreter_withInterpreter]
  split_ifs with h
  · subst h
    rfl
  · rfl

theorem preserved_release (w : World) (i j : Nat) :
    ((w.withInterpreter j fun s => { s with preserved := s.preserved - 1 }).interpreter
      i).preserved = (w.interpreter i).preserved - if j = i then 1 else 0 := by
  rw [interpreter_withInterpreter]
  split_ifs with h
  · subst h
    rfl
  · rfl

end World

namespace Balance

variable {P : Prop} {i j d n n' : Nat} {a : List VarRef} {cs : List Call} {c : Call}
  {α β : Type} {w v : World}

/-- An interpreter at a depth, with the traces of some variables and elements firing, and
with so many uses beside those of guards and bundles if uses are counted. -/
structure Level (P : Prop) (i d : Nat) (a : List VarRef) (n : Nat) (w : World) : Prop where
  bounded : w.Bounded i
  depth : (w.interpreter i).depth = d
  active : (w.interpreter i).active = a
  uses : P → (w.interpreter i).preserved = w.guardsOn i + n

/-- Every call leaves an interpreter at the level at which it finds it. -/
def contract (P : Prop) (i : Nat) : Contract (counting P) where
  Pre _ _ w := ∃ d a n, Level P i d a n w
  Post _ _ w w' := ∀ d a n, Level P i d a n w → Level P i d a n w'
  Change _ w' _ _ := w'.Bounded i
  change_bind _ h := h

/-- Programs that leave an interpreter at the level at which they find it. -/
abbrev Keeping (P : Prop) (i : Nat) (cs : List Call) (c : Call) : Program.Property :=
  fun _ p => ∀ d a n, p.Keeps (contract P i) cs c (Level P i d a n)

theorem sequential : Program.Sequential (Keeping P i cs c) where
  pure _ _ _ _ := .pure _
  bind hp hf d a n := .bind (hp d a n) fun b => hf b d a n
  get hk d a n := .get fun w _ => hk w d a n

theorem keeping_request (c' : Call) : Keeping P i cs c (Program.request c') :=
  fun d a n => .request fun _ hw _ => ⟨⟨d, a, n, hw⟩, fun _ hw' => hw' d a n hw⟩

/-- The two worlds agree on the level of an interpreter. -/
structure Same (i : Nat) (w w' : World) : Prop where
  bounded : w.Bounded i → w'.Bounded i
  depth : (w'.interpreter i).depth = (w.interpreter i).depth
  active : (w'.interpreter i).active = (w.interpreter i).active
  preserved : (w'.interpreter i).preserved = (w.interpreter i).preserved
  guards : w'.guardsOn i = w.guardsOn i

theorem Level.of_same (h : Level P i d a n w) (hs : Same i w v) : Level P i d a n v :=
  ⟨hs.bounded h.bounded, hs.depth.trans h.depth, hs.active.trans h.active, fun hP => by
    rw [hs.preserved, hs.guards, h.uses hP]⟩

theorem same_of_eq (hi : v.interpreter i = w.interpreter i) (hg : v.guardsOn i = w.guardsOn i) :
    Same i w v :=
  ⟨fun h => World.bounded_of_eq h (by rw [hi]) (by rw [hi]) (by rw [hi]), by rw [hi], by rw [hi],
    by rw [hi], hg⟩

theorem same_of_aside (h : w.Aside v) : Same i w v :=
  same_of_eq (World.interpreter_congr h.interpreters i) (h.alike.sameUse i).guards

theorem same_withInterpreter (w : World) (i j : Nat) {f : Interpreter → Interpreter}
    (hf : ∀ s, (f s).depth = s.depth ∧ (f s).maxNesting = s.maxNesting ∧
      (f s).active = s.active ∧ (f s).preserved = s.preserved) :
    Same i w (w.withInterpreter j f) := by
  have hd := World.apply_withInterpreter (·.depth) (hf (w.interpreter j)).1 i
  have hm := World.apply_withInterpreter (·.maxNesting) (hf (w.interpreter j)).2.1 i
  have ha := World.apply_withInterpreter (·.active) (hf (w.interpreter j)).2.2.1 i
  exact ⟨fun h => World.bounded_of_eq h hd hm ha, hd, ha,
    World.apply_withInterpreter (·.preserved) (hf (w.interpreter j)).2.2.2 i, rfl⟩

theorem same_withInterpreter_of_ne (w : World) (hj : j ≠ i) (f : Interpreter → Interpreter) :
    Same i w (w.withInterpreter j f) :=
  same_of_eq (by rw [World.interpreter_withInterpreter, if_neg hj]) rfl

theorem keeping_update {f : World → α × World} (hf : ∀ w, Same i w (f w).2) :
    Keeping P i cs c (Program.update f) :=
  fun _ _ _ => .update fun w hw _ => have h := hw.of_same (hf w); ⟨h.bounded, h⟩

theorem keeping_modify {f : World → World} (hf : ∀ w, Same i w (f w)) :
    Keeping P i cs c (Program.modify f) :=
  keeping_update (f := fun w => ((), f w)) hf

theorem keeping_modifyInterpreter {f : Interpreter → Interpreter}
    (hf : ∀ s, (f s).depth = s.depth ∧ (f s).maxNesting = s.maxNesting ∧
      (f s).active = s.active ∧ (f s).preserved = s.preserved) :
    Keeping P i cs c (Program.modifyInterpreter j f) :=
  keeping_modify fun w => same_withInterpreter w i j hf

theorem keeping_modifyInterpreter_of_ne (hj : j ≠ i) (f : Interpreter → Interpreter) :
    Keeping P i cs c (Program.modifyInterpreter j f) :=
  keeping_modify fun w => same_withInterpreter_of_ne w hj f

theorem keeping_setResult (value : Value) : Keeping P i cs c (Interp.setResult j value) :=
  keeping_modifyInterpreter fun _ => ⟨rfl, rfl, rfl, rfl⟩

theorem keeping_fail (message : String) : Keeping P i cs c (Interp.fail j message) :=
  sequential.bind (keeping_setResult _) fun _ => sequential.pure _

/-! ### Firing traces -/

/-- The firing traces change, and none is among them twice. -/
theorem Level.withActive (h : Level P i d a n w) {f : List VarRef → List VarRef}
    (hf : (f a).Nodup) :
    Level P i d (f a) n (w.withInterpreter i fun s => { s with active := f s.active }) := by
  have hs : (w.withInterpreter i fun s => { s with active := f s.active }).interpreter i =
      { w.interpreter i with active := f (w.interpreter i).active } := by
    rw [World.interpreter_withInterpreter_self]
  refine ⟨⟨?_, ?_, ?_⟩, ?_, ?_, fun hP => ?_⟩ <;> rw [hs]
  · exact h.bounded.depth_le
  · exact h.bounded.limit_pos
  · exact h.active ▸ hf
  · exact h.depth
  · exact congrArg f h.active
  · exact h.uses hP

/-- The traces of a variable or element are entered if they are not firing. -/
theorem meets_enterTraces {r : VarRef} (h : Level P i d a n w) (hr : r ∉ a) :
    (Interp.enterTraces i r).Meets (contract P i) cs c
      (fun _ w' => Level P i d (r :: a) n w') w := by
  have hdistinct : (r :: a).Nodup := List.nodup_cons.2 ⟨hr, h.active ▸ h.bounded.distinct⟩
  have hw := h.withActive (f := (r :: ·)) hdistinct
  exact fun _ => ⟨hw.bounded, hw⟩

theorem meets_leaveTraces {r : VarRef} (h : Level P i d (r :: a) n w) :
    (Interp.leaveTraces i).Meets (contract P i) cs c (fun _ w' => Level P i d a n w') w := by
  have hdistinct : (r :: a).Nodup := h.active ▸ h.bounded.distinct
  have hw := h.withActive (f := List.tail) hdistinct.tail
  exact fun _ => ⟨hw.bounded, hw⟩

/-- What happens while traces fire that were not firing is balanced if the traces are. -/
theorem meets_firing {r : VarRef} {p : Program α} (hp : Keeping P i cs c p)
    (h : Level P i d a n w) (hr : j = i → r ∉ a) :
    (do Interp.enterTraces j r; let b ← p; Interp.leaveTraces j; return b).Meets (contract P i)
      cs c (fun _ w' => Level P i d a n w') w := by
  by_cases hj : j = i
  · subst hj
    exact .bind ((meets_enterTraces h (hr rfl)).imp fun _ w₁ h₁ =>
      .bind ((hp d (r :: a) n w₁ h₁).imp fun _ w₂ h₂ =>
        .bind ((meets_leaveTraces h₂).imp fun _ _ h₃ => h₃)))
  · exact sequential.bind (keeping_modifyInterpreter_of_ne hj _) (fun _ =>
      sequential.bind hp fun _ => sequential.bind (keeping_modifyInterpreter_of_ne hj _) fun _ =>
        sequential.pure _) d a n w h

theorem keeping_fireTraces (r : VarRef) (op flags : Flags) :
    Keeping P i cs c (Interp.fireTraces j r op flags) := by
  intro d a n w h
  refine Program.meets_reading_iff.2 ?_
  dsimp only
  split
  · exact h
  · rename_i hidle
    refine meets_firing (sequential.fireEach (fun _ _ => keeping_request _) _) h ?_
    rintro rfl hr
    refine hidle (Bool.or_eq_true_iff.2 (.inl ?_))
    rw [List.contains_iff_mem, h.active]
    exact hr

theorem keeping_fireUnset (name : String) (extra : Flags) (groups : List UnsetGroup) :
    Keeping P i cs c (Interp.fireUnset j name extra groups) := by
  refine sequential.eachWithRest (fun g others => ?_) groups
  intro d a n w h
  refine Program.meets_reading_iff.2 ?_
  split
  · exact h
  · rename_i hidle
    refine meets_firing (r := ⟨name, g.key⟩) (sequential.eachWithRest (fun _ _ =>
      sequential.bind (keeping_request _) fun _ => sequential.pure _) _) h ?_
    rintro rfl hr
    refine hidle ?_
    rw [List.contains_iff_mem, h.active]
    exact hr

/-! ### Variables, commands and disposal -/

theorem same_withVars (w : World) (vs : Variables) :
    Same i w (w.withInterpreter j fun s => { s with vars := vs }) :=
  same_withInterpreter w i j (f := fun s => { s with vars := vs }) fun _ => ⟨rfl, rfl, rfl, rfl⟩

theorem keeping_store (r : VarRef) (value : Value) (flags : Flags) :
    Keeping P i cs c (Interp.store j r value flags) := by
  refine keeping_update fun w => ?_
  split
  · exact same_of_eq rfl rfl
  · exact same_withVars w _

theorem keeping_detach (r : VarRef) : Keeping P i cs c (Interp.detach j r) := by
  refine keeping_update fun w => ?_
  split
  · exact same_of_eq rfl rfl
  · exact same_withVars w _

theorem keeping_unset (name : String) (key : Option String) (flags : Flags) :
    Keeping P i cs c (Interp.unset j name key flags) := by
  refine sequential.bind (keeping_detach _) fun groups => ?_
  split
  · exact sequential.bind (sequential.reportAccess keeping_setResult _ _ _ _) fun _ =>
      sequential.pure _
  · exact sequential.bind (keeping_fireUnset _ _ _) fun _ => sequential.pure _

theorem keeping_addTrace (name : String) (key : Option String) (t : Trace) :
    Keeping P i cs c (Interp.addTrace j name key t) := by
  refine sequential.bind (sequential.interpreter j) fun s => ?_
  split
  · exact sequential.bind (keeping_modifyInterpreter fun _ => ⟨rfl, rfl, rfl, rfl⟩) fun _ =>
      sequential.pure _
  · exact keeping_fail _

theorem keeping_removeTrace (name : String) (key : Option String) (flags : Flags)
    (client : String) : Keeping P i cs c (Interp.removeTrace j name key flags client) :=
  keeping_update fun w => same_withVars w _

theorem keeping_runDelete (action : Option DeleteAction) :
    Keeping P i cs c (Interp.runDelete j action) := by
  cases action with
  | none => exact sequential.pure _
  | some action => exact keeping_request _

theorem keeping_takeCommand (name : String) : Keeping P i cs c (Interp.takeCommand j name) :=
  keeping_update fun w => same_withInterpreter w i j
    (f := fun s => { s with commands := s.commands.erase name }) fun _ => ⟨rfl, rfl, rfl, rfl⟩

theorem keeping_putCommand (name : String) (command : Command) :
    Keeping P i cs c (Interp.putCommand j name command) :=
  keeping_modifyInterpreter fun _ => ⟨rfl, rfl, rfl, rfl⟩

theorem keeping_createCommand (name : String) (command : Command) :
    Keeping P i cs c (Interp.createCommand j name command) :=
  sequential.createCommand (keeping_takeCommand name) keeping_runDelete
    (keeping_putCommand name command)

theorem keeping_deleteCommand (name : String) : Keeping P i cs c (Interp.deleteCommand j name) :=
  sequential.deleteCommand (keeping_takeCommand name) keeping_runDelete

theorem keeping_dispose : Keeping P i cs c (Interp.dispose j) := by
  refine sequential.bind (sequential.interpreter j) fun s => ?_
  split
  · exact sequential.pure _
  · refine sequential.bind (keeping_modifyInterpreter fun _ => ⟨rfl, rfl, rfl, rfl⟩) fun _ =>
      sequential.bind (keeping_update fun w => ?_) fun commands =>
        sequential.bind (sequential.each (fun _ => keeping_runDelete _) _) fun _ =>
          sequential.bind (keeping_update fun w => same_withVars w ∅) fun vars =>
            sequential.bind (sequential.each (fun _ => keeping_fireUnset _ _ _) _) fun _ =>
              keeping_modifyInterpreter fun _ => ⟨rfl, rfl, rfl, rfl⟩
    exact same_withInterpreter w i j (f := fun s => { s with commands := ∅ }) fun _ =>
      ⟨rfl, rfl, rfl, rfl⟩

theorem keeping_delete : Keeping P i cs c (Interp.delete j) :=
  sequential.delete (keeping_modifyInterpreter fun _ => ⟨rfl, rfl, rfl, rfl⟩) keeping_dispose

/-! ### Uses -/

/-- The uses of an interpreter change, and with them those that are counted besides guards
and bundles. -/
theorem Level.withPreserved (h : Level P i d a n w) (hv : v.interpreters = w.interpreters)
    {f : Nat → Nat}
    (hf : P → ((v.withInterpreter j fun s => { s with preserved := f s.preserved }).interpreter
      i).preserved = v.guardsOn i + n') :
    Level P i d a n' (v.withInterpreter j fun s => { s with preserved := f s.preserved }) := by
  have hi := World.interpreter_congr hv i
  have hdepth := World.apply_withInterpreter (·.depth) (w := v) (i := j)
    (f := fun s => { s with preserved := f s.preserved }) rfl i
  have hactive := World.apply_withInterpreter (·.active) (w := v) (i := j)
    (f := fun s => { s with preserved := f s.preserved }) rfl i
  refine ⟨World.bounded_of_eq (h.bounded.of_interpreters hv) hdepth
    (World.apply_withInterpreter (·.maxNesting) rfl i) hactive, ?_, ?_, hf⟩
  · rw [hdepth, hi, h.depth]
  · rw [hactive, hi, h.active]

/-- A use begins: it is that of a new guard or bundle or is counted as another one. -/
theorem Level.preserve (h : Level P i d a n w) (hv : v.interpreters = w.interpreters)
    (hg : P → w.guardsOn i + n + (if j = i then 1 else 0) = v.guardsOn i + n') :
    Level P i d a n' (v.withInterpreter j fun s => { s with preserved := s.preserved + 1 }) :=
  h.withPreserved (f := (· + 1)) hv fun hP => by
    rw [World.preserved_preserve, World.interpreter_congr hv i, h.uses hP, hg hP]

/-- A use ends: it is that of a guard or bundle that is gone or was counted as another
one. -/
theorem Level.release (h : Level P i d a n w) (hv : v.interpreters = w.interpreters)
    (hg : P → w.guardsOn i + n = v.guardsOn i + n' + if j = i then 1 else 0) :
    Level P i d a n' (v.withInterpreter j fun s => { s with preserved := s.preserved - 1 }) :=
  h.withPreserved (f := (· - 1)) hv fun hP => by
    rw [World.preserved_release, World.interpreter_congr hv i, h.uses hP, hg hP,
      Nat.add_sub_cancel]

theorem meets_preserve (h : Level P i d a n
      (w.withInterpreter j fun s => { s with preserved := s.preserved + 1 })) :
    (Interp.preserve j).Meets (contract P i) cs c (fun _ w' => Level P i d a n w') w :=
  fun _ => ⟨h.bounded, h⟩

theorem meets_release (h : Level P i d a n
      (w.withInterpreter j fun s => { s with preserved := s.preserved - 1 })) :
    (Interp.release j).Meets (contract P i) cs c (fun _ w' => Level P i d a n w') w := by
  rw [Interp.release_eq, Program.meets_get_iff]
  refine fun _ => ⟨h.bounded, ?_⟩
  rw [Program.meets_get_iff]
  split
  · exact keeping_dispose d a n _ h
  · exact h

/-- An evaluation is another use while its body runs. -/
theorem keeping_guarded {body : Program Status} (hbody : Keeping P i cs c body) :
    Keeping P i cs c (Interp.guarded j body) := by
  intro d a n w h
  refine Program.meets_reading_iff.2 ?_
  dsimp only
  split
  · exact keeping_fail _ d a n w h
  · have hmore : Level P i d a (n + if j = i then 1 else 0)
        (w.withInterpreter j fun s => { s with preserved := s.preserved + 1 }) :=
      h.preserve rfl fun _ => by rw [Nat.add_assoc]
    refine .bind ((meets_preserve hmore).imp fun _ w₁ h₁ => .bind ((hbody d a _ w₁ h₁).imp
      fun status w₂ h₂ => Program.meets_reading_iff.2 (.bind ((meets_release ?_).imp
        fun _ _ h₃ => h₃))))
    exact h₂.release rfl fun _ => by rw [Nat.add_assoc]

theorem keeping_addGuard : Keeping P i cs c (Scenario.addGuard j) := by
  intro d a n w h
  refine .bind fun _ => ⟨h.bounded.of_interpreters rfl, meets_preserve (h.preserve rfl fun _ => ?_)⟩
  change (w.bench.guards.count i + w.bundlesFor i) + n + _ =
    ((j :: w.bench.guards).count i + w.bundlesFor i) + n
  rw [World.count_cons_guard]
  omega

theorem keeping_dropGuard : Keeping P i cs c Scenario.dropGuard := by
  intro d a n w h
  refine Program.meets_reading_iff.2 ?_
  split
  · exact h
  · rename_i j rest hguards
    replace hguards : w.bench.guards = j :: rest := hguards
    refine .bind fun _ => ⟨h.bounded.of_interpreters rfl, meets_release (h.release rfl fun _ => ?_)⟩
    change (w.bench.guards.count i + w.bundlesFor i) + n =
      (rest.count i + w.bundlesFor i) + n + _
    rw [hguards, World.count_cons_guard]
    omega

theorem keeping_buildBundle (vs : List HostValue) :
    Keeping P i cs c (Bridge.buildBundle j vs) := by
  unfold Bridge.buildBundle
  split
  · exact sequential.pure _
  · refine sequential.bind (sequential.reading _) fun w => ?_
    split
    · rename_i converted _
      intro d a n w h
      have hobject : ∀ o, Keeping P i cs c (Bridge.newObject o) := fun o =>
        keeping_update fun _ => same_of_eq rfl rfl
      have hpreserve : (Interp.preserve j).Meets (contract P i) cs c
          (fun _ w' => Level P i d a n w')
          { w with bundles := w.bundles.add { interpreter := j, values := some converted } } := by
        refine meets_preserve (h.preserve rfl fun _ => ?_)
        change (w.bench.guards.count i + w.bundlesFor i) + n + _ =
          (w.bench.guards.count i + World.bundlesFor
            { w with bundles := w.bundles.add { interpreter := j, values := some converted } } i) + n
        rw [World.bundlesFor_add]
        omega
      refine .bind fun _ => ⟨h.bounded.of_interpreters rfl, .bind (hpreserve.imp fun _ w₁ h₁ => ?_)⟩
      exact sequential.bind (hobject _) (fun _ => sequential.pure _) d a n w₁ h₁
    · exact sequential.pure _

theorem keeping_teardown (id : Nat) : Keeping P i cs c (Bridge.teardown id) := by
  intro d a n w h
  refine .bind fun _ => ?_
  dsimp only
  split
  · exact ⟨h.bounded, h⟩
  · rename_i htorn
    rw [Bool.not_eq_true] at htorn
    have hcount := World.bundlesFor_put htorn i (b := { w.bundle id with values := none }) rfl
    refine ⟨h.bounded.of_interpreters rfl, meets_release (h.release rfl fun _ => ?_)⟩
    change (w.bench.guards.count i + w.bundlesFor i) + n =
      (w.bench.guards.count i + World.bundlesFor { w with
        bundles := w.bundles.put id { w.bundle id with values := none } } i) + n + _
    rw [hcount]
    omega

/-! ### Invocations -/

/-- A new interpreter is at the level of one that is not there. -/
theorem keeping_addInterpreter (maxNesting : Nat) :
    Keeping P i cs c (Bridge.addInterpreter maxNesting) := by
  refine keeping_update fun w => ?_
  have hadd := w.interpreter_add (.new maxNesting) i
  by_cases hi : w.interpreters.next = i
  · subst hi
    rw [if_pos rfl] at hadd
    refine ⟨fun _ => World.bounded_of_new hadd, ?_, ?_, ?_, rfl⟩ <;> rw [w.interpreter_next] <;>
      dsimp only <;> rw [hadd] <;> rfl
  · rw [if_neg hi] at hadd
    exact same_of_eq hadd rfl

theorem keeping_withHandle (handle : Nat) (f : Handle → Handle) :
    Keeping P i cs c (Program.modify fun w => w.withHandle handle f) :=
  keeping_modify fun _ => same_of_eq rfl rfl

theorem keeping_renameCommand (old new : String) :
    Keeping P i cs c (Interp.renameCommand j old new) :=
  sequential.renameCommand keeping_fail (keeping_takeCommand old) (keeping_deleteCommand old)
    (keeping_putCommand new)

/-- All programs but those of evaluations and invocations. -/
theorem conduct : Program.Conduct (Keeping P i cs c) where
  toSequential := sequential
  setResult _ := keeping_setResult
  fireTraces _ r _ _ := keeping_fireTraces r _
  invoke _ _ := keeping_request _
  overflow _ _ _ _ := .overflow _
  update hf := keeping_update fun w => same_of_aside (hf w)
  request _ := keeping_request _
  modifyInterpreter _ _ hf := keeping_modifyInterpreter fun s => by
    rw [hf s]
    exact ⟨rfl, rfl, rfl, rfl⟩
  store _ := keeping_store
  unset _ := keeping_unset
  createCommand _ name _ _ := keeping_createCommand name _
  deleteCommand _ := keeping_deleteCommand
  delete _ := keeping_delete
  buildBundle _ := keeping_buildBundle
  teardown := keeping_teardown
  addInterpreter := keeping_addInterpreter
  addHandle _ _ := keeping_update fun _ => same_of_eq rfl rfl
  destroy _ := sequential.destroy (keeping_withHandle _ _) fun _ => keeping_delete
  register handle name _ := sequential.register (fun _ => keeping_createCommand name _)
    (keeping_withHandle handle _)
  traceVar handle name key _ _ :=
    sequential.traceVar (fun _ => keeping_addTrace name key _) (keeping_withHandle handle _)
  untraceVar handle name key _ _ :=
    sequential.untraceVar (fun _ => keeping_removeTrace name key) (keeping_withHandle handle _)

/-- The depth changes within the limit. -/
theorem Level.withDepth (h : Level P i d a n w) {f : Nat → Nat}
    (hf : f d ≤ (w.interpreter i).maxNesting) :
    Level P i (f d) a n (w.withInterpreter i fun s => { s with depth := f s.depth }) := by
  have hs : (w.withInterpreter i fun s => { s with depth := f s.depth }).interpreter i =
      { w.interpreter i with depth := f (w.interpreter i).depth } := by
    rw [World.interpreter_withInterpreter_self]
  refine ⟨⟨?_, ?_, ?_⟩, ?_, ?_, fun hP => ?_⟩ <;> rw [hs]
  · exact h.depth ▸ hf
  · exact h.bounded.limit_pos
  · exact h.bounded.distinct
  · exact congrArg f h.depth
  · exact h.active
  · exact h.uses hP

/-- The depth is counted up if it is below the limit. -/
theorem meets_enterCommand (h : Level P i d a n w) (hlt : d < (w.interpreter i).maxNesting) :
    (Interp.enterCommand i).Meets (contract P i) cs c
      (fun _ w' => Level P i (d + 1) a n w') w := by
  have hw := h.withDepth (f := (· + 1)) hlt
  exact fun _ => ⟨hw.bounded, hw⟩

theorem meets_leaveCommand (h : Level P i (d + 1) a n w) :
    (Interp.leaveCommand i).Meets (contract P i) cs c (fun _ w' => Level P i d a n w') w := by
  have hle : d ≤ (w.interpreter i).maxNesting := by
    have := h.depth
    have := h.bounded.depth_le
    omega
  have hw := h.withDepth (f := (· - 1)) hle
  exact fun _ => ⟨hw.bounded, hw⟩

/-- An invocation looks at the depth before it counts itself. -/
theorem keeping_invoke {perform : Nat → Procedure → List Value → Program Status}
    (hp : ∀ k p words, Keeping P i cs c (perform k p words)) (words : List Value) :
    Keeping P i cs c (Interp.invokeWith perform j words) := by
  by_cases hj : j = i
  · subst hj
    intro d a n w h
    cases words with
    | nil => exact h
    | cons first rest =>
      refine Program.meets_reading_iff.2 ?_
      split
      · exact keeping_fail _ d a n w h
      · rename_i hdepth
        split
        · exact keeping_fail _ d a n w h
        · rename_i command _
          have hlt : d < (w.interpreter j).maxNesting := h.depth ▸ Nat.lt_of_not_le hdepth
          have hreset : Same j w (w.withInterpreter j fun s => { s with result := .empty }) :=
            same_withInterpreter w j j fun _ => ⟨rfl, rfl, rfl, rfl⟩
          have h₁ := h.of_same hreset
          have hlt₁ : d < ((w.withInterpreter j fun s =>
              { s with result := .empty }).interpreter j).maxNesting := by
            rw [World.interpreter_withInterpreter_self]
            exact hlt
          refine .bind fun _ => ⟨h₁.bounded, .bind ((meets_enterCommand h₁ hlt₁).imp
            fun _ w₂ h₂ => .bind ((hp j command.procedure (first :: rest) (d + 1) a n w₂ h₂).imp
              fun status w₃ h₃ => .bind ((meets_leaveCommand h₃).imp fun _ _ h₄ => h₄)))⟩
  · exact conduct.invokeWith hp j (keeping_modifyInterpreter_of_ne hj _)
      (keeping_modifyInterpreter_of_ne hj _) words

/-! ### All calls -/

/-- There is one level at a time, as far as uses are counted. -/
theorem Level.agree {d' n' : Nat} {a' : List VarRef} (h : Level P i d a n w)
    (h' : Level P i d' a' n' w) (hv : Level P i d a n v) : Level P i d' a' n' v := by
  obtain rfl := h.depth.symm.trans h'.depth
  obtain rfl := h.active.symm.trans h'.active
  refine ⟨hv.bounded, hv.depth, hv.active, fun hP => ?_⟩
  have := h.uses hP
  have := h'.uses hP
  have := hv.uses hP
  omega

/-- Every call is balanced. -/
theorem holds (P : Prop) (i : Nat) : (contract P i).Holds Scenario.handle := by
  intro cs c w hs ⟨d, a, n, hw⟩
  have h : Program.Conduct (Keeping P i cs c) := conduct
  have hcall : Keeping P i cs c (Scenario.handle c) := by
    by_cases hinvoke : ∃ j words, c = .invoke j words
    · obtain ⟨j, words, rfl⟩ := hinvoke
      exact keeping_invoke (h.performProcedure h.callHost fun _ => keeping_renameCommand) words
    · cases hc : c.evaluated? with
      | some j =>
        cases c with
        | eval k script =>
          exact keeping_guarded (h.bind (h.setResult k _) fun _ => h.runScript k _)
        | evalWords k words => exact keeping_guarded (h.invoke k words)
        | _ => cases hc
      | none =>
        refine h.handle hc (fun _ _ => keeping_renameCommand)
          (fun j words he => absurd ⟨j, words, he⟩ hinvoke) (fun _ => keeping_addTrace) (fun _ => keeping_removeTrace)
          (fun _ handle _ _ => keeping_withHandle handle _) (fun _ => keeping_addGuard)
          keeping_dropGuard ?_ ?_
        · rintro j rfl d a n w h
          exact meets_preserve (h.preserve rfl fun hP => absurd trivial (hs hP))
        · rintro j rfl d a n w h
          exact meets_release (h.release rfl fun hP => absurd trivial (hs hP))
  exact (hcall d a n w hw).imp fun _ w' hw' d' a' n' h' => hw.agree h' hw'

end Balance

/-- The evaluations of scripts and words and the accesses to variables. -/
inductive Interp.Entry (i : Nat) : ∀ {α : Type}, Program α → Prop
  | evalScript (source : String) : Entry i (evalScript i source)
  | evalWords (words : List Value) : Entry i (evalWords i words)
  | read (name : String) (key : Option String) (flags : Flags) : Entry i (read i name key flags)
  | write (name : String) (key : Option String) (value : Value) (flags : Flags) :
      Entry i (write i name key value flags)
  | unset (name : String) (key : Option String) (flags : Flags) : Entry i (unset i name key flags)

namespace Balance

theorem keeping_of_entry {p : Program α} (hp : Interp.Entry i p) : Keeping P i cs c p := by
  have h : Program.Conduct (Keeping P i cs c) := conduct
  cases hp with
  | evalScript source =>
    exact keeping_guarded (h.bind (h.setResult i _) fun _ => h.runScript i _)
  | evalWords words => exact keeping_guarded (h.invoke i words)
  | read name key flags => exact h.read i name key flags
  | write name key value flags => exact h.write i name key value flags
  | unset name key flags => exact keeping_unset name key flags

/-- What an entry finds it leaves behind, whatever is called on the way. -/
theorem Level.of_makes {p : Program α} {b : α} {w' : World} (h : Level P i d a n w)
    (hp : Interp.Entry i p) (hm : p.Makes Scenario.handle w cs b w')
    (hcs : P → ∀ c ∈ cs, ¬c.IsRawUse) : Level P i d a n w' :=
  have hkept : Keeping P i [] (.eval i "") p := keeping_of_entry hp
  (hm.meets_within (fun _ _ _ _ => trivial) (holds P i) (fun c hc _ _ hP => hcs hP c hc)
    (hkept d a n w h)).1

theorem between : (contract False i).Between (World.Bounded i) where
  pre _ _ _ hw := ⟨_, _, 0, hw, rfl, rfl, False.elim⟩
  post _ _ _ hw hpost := (hpost _ _ 0 ⟨hw, rfl, rfl, False.elim⟩).bounded
  aside _ _ hw ha := hw.of_interpreters ha.interpreters

theorem counting_false : counting False = {} :=
  congrArg (Scope.mk · _) (by
    funext _ c _
    exact propext ⟨fun _ => trivial, fun _ h => h.elim⟩)

end Balance

/-- **Evaluation is bounded and balanced.**  Wherever a session is on its way that began
with an interpreter within its limit, the interpreter is within its limit, and no variable
or element is twice among those whose traces are firing.  An evaluation or an access to a
variable that is made there, and whatever it calls, leaves the depth and the firing traces
as it found them when it replies; and if nothing is called that uses the interpreter for
nobody, the uses too, but for those of guards and bundles that were made or dropped. -/
theorem Machine.Occurs.balanced {i : Nat} {w₀ : World} (h₀ : w₀.Bounded i) {root : Call}
    {m : Machine root} (hm : m.Occurs {} Scenario.handle w₀) :
    m.world.Bounded i ∧
      ∀ {α : Type} {p : Program α}, Interp.Entry i p →
        ∀ cs b w', p.Makes Scenario.handle m.world cs b w' →
          (w'.interpreter i).depth = (m.world.interpreter i).depth ∧
          (w'.interpreter i).active = (m.world.interpreter i).active ∧
          ((∀ c ∈ cs, ¬c.IsRawUse) → m.world.guardsOn i ≤ (m.world.interpreter i).preserved →
            (w'.interpreter i).preserved + m.world.guardsOn i =
              (m.world.interpreter i).preserved + w'.guardsOn i) := by
  rw [← Balance.counting_false] at hm
  have hb : m.world.Bounded i := hm.invariant (Balance.holds False i) Balance.between
    (fun _ _ _ _ _ hchange => hchange) h₀
  refine ⟨hb, fun hp cs b w' hrun => ?_⟩
  have hlevel : Balance.Level False i (m.world.interpreter i).depth
      (m.world.interpreter i).active 0 m.world := ⟨hb, rfl, rfl, False.elim⟩
  have hleft := hlevel.of_makes hp hrun False.elim
  refine ⟨hleft.depth, hleft.active, fun hcs hguards => ?_⟩
  have huses : Balance.Level True i (m.world.interpreter i).depth (m.world.interpreter i).active
      ((m.world.interpreter i).preserved - m.world.guardsOn i) m.world :=
    ⟨hb, rfl, rfl, fun _ => by omega⟩
  have := (huses.of_makes hp hrun fun _ => hcs).uses trivial
  omega

/-- A session with one new interpreter, in which a command is invoked. -/
theorem Machine.Occurs.balanced_single : (World.single 10).Bounded 0 ∧
    ∃ m : Machine (.evalWords 0 [.text "list"]), m.Occurs {} Scenario.handle (.single 10) ∧
      m.world.Bounded 0 ∧
      ∃ cs w', (Interp.evalWords 0 [.text "list"]).Makes Scenario.handle m.world cs .ok w' ∧
        (w'.interpreter 0).depth = (m.world.interpreter 0).depth := by
  have h₀ : (World.single 10).Bounded 0 := World.bounded_of_new (World.interpreter_single 10)
  have hm : Machine.Occurs {} Scenario.handle (.single 10)
      (.start Scenario.handle (.evalWords 0 [.text "list"]) (.single 10)) := .start trivial
  obtain ⟨w', hrun⟩ : ∃ w', ∃ n, Machine.run Scenario.handle n
      (.start Scenario.handle (.evalWords 0 [.text "list"]) (.single 10)) = some (.reply .ok w') :=
    ⟨_, 60, rfl⟩
  obtain ⟨cs, hmakes⟩ := Program.exists_makes_iff.2 (Machine.exists_run_iff.1 hrun)
  obtain ⟨hb, hentries⟩ := hm.balanced h₀
  exact ⟨h₀, _, hm, hb, cs, w', hmakes, (hentries (.evalWords [.text "list"]) cs .ok w' hmakes).1⟩

end CommandBridge
