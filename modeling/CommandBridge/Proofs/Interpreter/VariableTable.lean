/-
# Well-formed variable tables

Only arrays have elements, an element has a value or a trace, and nothing is entered that
is not there for a value, for elements or for traces (`Variable.WellFormed`).  Four
operations change a table.  Writing and tracing enter a variable together with what it is
there for (`Variables.WellFormed.store`, `Variables.WellFormed.addTrace`); unsetting an
element leaves its array behind, even without elements (`Variables.WellFormed.detach`); the
last trace that is removed takes an element or a variable along that was there for its
traces only (`Variables.WellFormed.removeTrace`).  An operation that fails changes nothing.

Traces fire between these operations and may do anything, also to the variable at hand.
What the four operations keep is therefore kept by everything (`Variables.Stable`), and it
holds of every table at every moment of a session (`Machine.Occurs.stable`).
-/

import CommandBridge.Proofs.Interpreter.Watchful
import CommandBridge.Proofs.Run.Monitor

namespace CommandBridge

/-- The element has a value or a trace. -/
def Element.Occupied (e : Element) : Prop :=
  e.value.isSome = true ∨ e.traces ≠ []

namespace Variable

/-- Only an array has elements, and each of them has a value or a trace. -/
structure Coherent (v : Variable) : Prop where
  isArray {key : String} {e : Element} (h : v.elements[key]? = some e) : v.isArray = true
  occupied {key : String} {e : Element} (h : v.elements[key]? = some e) : e.Occupied

/-- The elements are coherent, and the variable is there for something. -/
structure WellFormed (v : Variable) : Prop extends Coherent v where
  not_vacant : v.isVacant = false

variable {v : Variable} {key : String} {e : Element}

theorem content_of_isArray (h : v.isArray = true) : v.content = .array := by
  unfold isArray at h
  split at h
  · assumption
  · cases h

theorem not_vacant_of_isArray (h : v.isArray = true) : v.isVacant = false := by
  rw [isVacant, content_of_isArray h]

/-- A new variable has no elements. -/
theorem coherent_new : Coherent {} where
  isArray h := nomatch Std.ExtTreeMap.getElem?_empty.symm.trans h
  occupied h := nomatch Std.ExtTreeMap.getElem?_empty.symm.trans h

/-- What is not an array may become a scalar. -/
theorem Coherent.scalar (h : v.Coherent) (hv : v.isArray = false) (value : Value) :
    WellFormed { v with content := .scalar value } where
  isArray he := nomatch hv.symm.trans (h.isArray he)
  occupied he := h.occupied he
  not_vacant := rfl

/-- Traces on the whole variable are of no account to its elements. -/
theorem Coherent.withTraces (h : v.Coherent) (ts : List Trace) :
    Coherent { v with traces := ts } where
  isArray he := h.isArray he
  occupied he := h.occupied he

/-- An element that has something may be entered into an array. -/
theorem Coherent.insert (h : v.Coherent) (key : String) (content : Content)
    (hcontent : content matches .array) (he : e.Occupied) :
    WellFormed { v with content := content, elements := v.elements.insert key e } := by
  have harray : Variable.isArray
      { v with content := content, elements := v.elements.insert key e } = true := by
    cases content <;> first | rfl | cases hcontent
  refine ⟨⟨fun _ => harray, fun {key' e'} he' => ?_⟩, not_vacant_of_isArray harray⟩
  rw [getElem?_insert_name] at he'
  split at he'
  · obtain rfl := Option.some.inj he'
    exact he
  · exact h.occupied he'

/-- What is left when an element is struck off was there before. -/
theorem Coherent.erase (h : v.Coherent) (key : String) :
    Coherent { v with elements := v.elements.erase key } := by
  have hleft : ∀ {key' : String} {e' : Element}, (v.elements.erase key)[key']? = some e' →
      v.elements[key']? = some e' := by
    intro key' e' he'
    rw [getElem?_erase_name] at he'
    split at he'
    · cases he'
    · exact he'
  exact ⟨fun he => h.isArray (hleft he), fun he => h.occupied (hleft he)⟩

end Variable

namespace Variables

/-- Every variable of the table is well formed. -/
def WellFormed (vs : Variables) : Prop :=
  ∀ (name : String) (v : Variable), vs[name]? = some v → v.WellFormed

namespace WellFormed

variable {vs vs' : Variables} {r : VarRef} {name : String} {v : Variable}

theorem empty : WellFormed ∅ :=
  fun _ _ h => nomatch Std.ExtTreeMap.getElem?_empty.symm.trans h

theorem insert (h : vs.WellFormed) (hv : v.WellFormed) :
    Variables.WellFormed (vs.insert name v) := by
  intro name' v' hv'
  rw [getElem?_insert_name] at hv'
  split at hv'
  · obtain rfl := Option.some.inj hv'
    exact hv
  · exact h name' v' hv'

theorem erase (h : vs.WellFormed) (name : String) : Variables.WellFormed (vs.erase name) := by
  intro name' v' hv'
  rw [getElem?_erase_name] at hv'
  split at hv'
  · cases hv'
  · exact h name' v' hv'

/-- A variable that is put back is dropped if nothing is left of it. -/
theorem settle (h : vs.WellFormed) (hv : v.Coherent) : (vs.settle name v).WellFormed := by
  unfold Variables.settle
  split
  · exact h.erase name
  · rename_i hvacant
    exact h.insert ⟨hv, Bool.eq_false_iff.2 hvacant⟩

/-- What is entered under a name, or a new variable, is coherent. -/
theorem coherent_getD (h : vs.WellFormed) (name : String) : (vs[name]?.getD {}).Coherent := by
  cases hv : vs[name]? with
  | none => exact Variable.coherent_new
  | some v => exact (h name v hv).toCoherent

/-- Writing keeps the table well formed: an element that is written has a value. -/
theorem store (h : vs.WellFormed) {value new : Value} {flags : Flags}
    (hstore : vs.store r value flags = .ok (new, vs')) : vs'.WellFormed := by
  have hv := h.coherent_getD r.name
  unfold Variables.store at hstore
  dsimp only at hstore
  split at hstore
  case h_1 => cases hstore
  case h_2 hcontent | h_3 hcontent =>
    obtain ⟨-, rfl⟩ := Prod.mk.inj (Except.ok.inj hstore)
    exact h.insert (hv.scalar (by rw [Variable.isArray, hcontent]) _)
  case h_4 => cases hstore
  case h_5 =>
    obtain ⟨-, rfl⟩ := Prod.mk.inj (Except.ok.inj hstore)
    exact h.insert (hv.insert _ _ rfl (.inl rfl))

/-- Unsetting keeps the table well formed: an array stays when its last element goes. -/
theorem detach (h : vs.WellFormed) {groups : List UnsetGroup}
    (hdetach : vs.detach r = .ok (groups, vs')) : vs'.WellFormed := by
  unfold Variables.detach at hdetach
  split at hdetach
  · cases hdetach
  · rename_i v hv
    split at hdetach
    · cases hdetach
    · cases hdetach
    · rename_i key hcontent _
      split at hdetach
      · obtain ⟨-, rfl⟩ := Prod.mk.inj (Except.ok.inj hdetach)
        refine h.insert ⟨(h _ v hv).erase key, Variable.not_vacant_of_isArray ?_⟩
        rw [Variable.isArray, hcontent]
      · cases hdetach
    · obtain ⟨-, rfl⟩ := Prod.mk.inj (Except.ok.inj hdetach)
      exact h.erase r.name

/-- Installing a trace keeps the table well formed: what is entered has the trace. -/
theorem addTrace (h : vs.WellFormed) {t : Trace} (hadd : vs.addTrace r t = .ok vs') :
    vs'.WellFormed := by
  have hv := h.coherent_getD r.name
  unfold Variables.addTrace at hadd
  dsimp only at hadd
  split at hadd
  · obtain rfl := Except.ok.inj hadd
    refine h.insert ⟨hv.withTraces _, ?_⟩
    unfold Variable.isVacant
    split <;> rfl
  · cases hadd
  · obtain rfl := Except.ok.inj hadd
    exact h.insert (hv.insert _ _ rfl (.inr (List.cons_ne_nil _ _)))

/-- Removing a trace keeps the table well formed: an element without a value goes with its
last trace, and a variable without either with its last trace. -/
theorem removeTrace (h : vs.WellFormed) (r : VarRef) (flags : Flags) (client : String) :
    (vs.removeTrace r flags client).2.WellFormed := by
  unfold Variables.removeTrace
  split
  · exact h
  · rename_i v hv
    have hv := (h _ v hv).toCoherent
    split
    · exact h.settle (hv.withTraces _)
    · rename_i key _
      split
      · exact h
      · rename_i e he
        split
        · refine h.settle ?_
          split
          · exact hv.erase key
          · rename_i hleft
            have harray := hv.isArray he
            refine (hv.insert key v.content (Variable.content_of_isArray harray ▸ rfl) ?_).toCoherent
            · rw [Bool.and_eq_true, Option.isNone_iff_eq_none, List.isEmpty_iff,
                Classical.not_and_iff_not_or_not] at hleft
              exact hleft.imp_left fun hsome => Option.isSome_iff_ne_none.2 hsome
        · exact h.settle hv

end WellFormed

/-! ### What all tables have -/

/-- A property of the tables of interpreters that tables without variables have and that the
four operations keep which change a table.  Of the traces, those are installed that have a
property. -/
structure Stable (T : Nat → Trace → Prop) (P : Nat → Variables → Prop) : Prop where
  empty (i : Nat) : P i ∅
  store {i : Nat} {vs vs' : Variables} {r : VarRef} {value new : Value} {flags : Flags}
    (h : P i vs) (hstore : vs.store r value flags = .ok (new, vs')) : P i vs'
  detach {i : Nat} {vs vs' : Variables} {r : VarRef} {groups : List UnsetGroup} (h : P i vs)
    (hdetach : vs.detach r = .ok (groups, vs')) : P i vs'
  addTrace {i : Nat} {vs vs' : Variables} {r : VarRef} {t : Trace} (h : P i vs) (ht : T i t)
    (hadd : vs.addTrace r t = .ok vs') : P i vs'
  removeTrace {i : Nat} {vs : Variables} (h : P i vs) (r : VarRef) (flags : Flags)
    (client : String) : P i (vs.removeTrace r flags client).2

theorem stable_wellFormed {T : Nat → Trace → Prop} : Stable T fun _ => WellFormed where
  empty _ := .empty
  store h := h.store
  detach h := h.detach
  addTrace h _ := h.addTrace
  removeTrace h := h.removeTrace

end Variables

/-- The variables of every interpreter have a property. -/
def World.AllTables (P : Variables → Prop) (w : World) : Prop :=
  ∀ i, P (w.interpreter i).vars

/-- The variables of every interpreter have the property that goes with it. -/
def World.EachTable (P : Nat → Variables → Prop) (w : World) : Prop :=
  ∀ i, P i (w.interpreter i).vars

namespace Variables.Stable

variable {S : Scope} {T : Nat → Trace → Prop} {P : Nat → Variables → Prop} {cs : List Call}
  {c : Call} {α : Type} {w w' : World} {i : Nat}

/-- Every call finds the tables with the property and leaves them with it, and so does
every change on the way. -/
def contract (P : Nat → Variables → Prop) : Contract S where
  Pre _ _ w := w.EachTable P
  Post _ _ _ w' := w'.EachTable P
  Change _ w' _ _ := w'.EachTable P
  change_bind _ h := h

/-- Programs that keep the property of all tables. -/
abbrev Keeping (S : Scope) (P : Nat → Variables → Prop) (cs : List Call) (c : Call) :
    Program.Property :=
  fun _ p => p.Keeps (contract P : Contract S) cs c (World.EachTable P)

theorem sequential : Program.Sequential (Keeping S P cs c) where
  pure _ := .pure _
  bind hp hf := .bind hp hf
  get hk := .get fun w _ => hk w

theorem keeping_update {f : World → α × World}
    (hf : ∀ w : World, w.EachTable P → (f w).2.EachTable P) :
    Keeping S P cs c (Program.update f) :=
  .update fun w hw _ => ⟨hf w hw, hf w hw⟩

theorem keeping_request (d : Call) : Keeping S P cs c (Program.request d) :=
  .request fun _ hw _ => ⟨hw, fun _ hw' => hw'⟩

theorem eachTable_of_steady (hw : w.EachTable P) (h : w.Steady w') : w'.EachTable P :=
  fun i => by rw [h.vars]; exact hw i

theorem keeping_steady {f : World → α × World} (hf : ∀ w : World, w.Steady (f w).2) :
    Keeping S P cs c (Program.update f) :=
  keeping_update fun w hw => eachTable_of_steady hw (hf w)

/-- One interpreter gets another table. -/
theorem eachTable_withVars (hw : w.EachTable P) {vs : Variables} (hvs : P i vs) :
    (w.withInterpreter i fun s => { s with vars := vs }).EachTable P := by
  intro j
  rw [World.interpreter_withInterpreter]
  split
  · subst j
    exact hvs
  · exact hw j

theorem keeping_setResult (value : Value) : Keeping S P cs c (Interp.setResult i value) :=
  keeping_steady (f := fun w => ((), w.withInterpreter i fun s => { s with result := value }))
    fun w => w.steady_withInterpreter i (f := fun s => { s with result := value }) rfl rfl rfl

theorem keeping_fail (message : String) : Keeping S P cs c (Interp.fail i message) :=
  sequential.bind (keeping_setResult _) fun _ => sequential.pure _

/-! #### Firing -/

/-- Which traces are firing is of no account. -/
theorem keeping_active (f : List VarRef → List VarRef) :
    Keeping S P cs c (Program.modifyInterpreter i fun s => { s with active := f s.active }) :=
  keeping_update (f := fun w => ((), w.withInterpreter i fun s => { s with active := f s.active }))
    fun w hw j => by
      rw [World.apply_withInterpreter (·.vars) (f := fun s => { s with active := f s.active }) rfl]
      exact hw j

theorem keeping_fireTraces (r : VarRef) (op flags : Flags) :
    Keeping S P cs c (Interp.fireTraces i r op flags) :=
  sequential.fireTraces (keeping_active _) (keeping_active _) fun _ _ => keeping_request _

theorem keeping_fireUnset (name : String) (extra : Flags) (groups : List UnsetGroup) :
    Keeping S P cs c (Interp.fireUnset i name extra groups) :=
  sequential.fireUnset (fun _ => keeping_active _) (keeping_active _)
    (fun _ _ _ => keeping_request _) groups

/-! #### The operations -/

theorem keeping_store (hP : Stable T P) (r : VarRef) (value : Value) (flags : Flags) :
    Keeping S P cs c (Interp.store i r value flags) := by
  refine keeping_update fun w hw => ?_
  split
  · exact hw
  · rename_i hstore
    exact eachTable_withVars hw (hP.store (hw i) hstore)

theorem keeping_unset (hP : Stable T P) (name : String) (key : Option String) (flags : Flags) :
    Keeping S P cs c (Interp.unset i name key flags) := by
  refine sequential.bind (keeping_update fun w hw => ?_) fun groups => ?_
  · split
    · exact hw
    · rename_i hdetach
      exact eachTable_withVars hw (hP.detach (hw i) hdetach)
  · split
    · exact sequential.bind (sequential.reportAccess keeping_setResult _ _ _ _) fun _ =>
        sequential.pure _
    · exact sequential.bind (keeping_fireUnset _ _ _) fun _ => sequential.pure _

/-- The table into which the trace is installed is the one that was just read. -/
theorem keeping_addTrace (hP : Stable T P) (name : String) (key : Option String) {t : Trace}
    (ht : T i t) : Keeping S P cs c (Interp.addTrace i name key t) := by
  refine Program.Keeps.reading fun w hw => ?_
  split
  · rename_i hadd
    exact sequential.bind (keeping_update
      (f := fun w => ((), w.withInterpreter i fun s => { s with vars := _ }))
      fun _ hw' => eachTable_withVars hw' (hP.addTrace (hw i) ht hadd)) fun _ => sequential.pure _
  · exact keeping_fail _

theorem keeping_removeTrace (hP : Stable T P) (name : String) (key : Option String) (flags : Flags)
    (client : String) : Keeping S P cs c (Interp.removeTrace i name key flags client) :=
  keeping_update fun _ hw => eachTable_withVars hw (hP.removeTrace (hw i) _ flags client)

theorem keeping_runDelete (action : Option DeleteAction) :
    Keeping S P cs c (Interp.runDelete i action) := by
  cases action with
  | none => exact sequential.pure _
  | some action => exact keeping_request _

theorem keeping_dispose (hP : Stable T P) : Keeping S P cs c (Interp.dispose i) := by
  have hcommands : Keeping S P cs c (Interp.takeCommands i) :=
    keeping_steady fun w => w.steady_withInterpreter i
      (f := fun s => { s with commands := ∅ }) rfl rfl rfl
  have hmark : Keeping S P cs c
      (Program.modifyInterpreter i fun s => { s with disposed := true }) :=
    keeping_update (f := fun w => ((), w.withInterpreter i fun s => { s with disposed := true }))
      fun w hw j => by
        rw [World.apply_withInterpreter (·.vars) (f := fun s => { s with disposed := true }) rfl]
        exact hw j
  refine sequential.bind (sequential.interpreter i) fun s => ?_
  split
  · exact sequential.pure _
  · exact sequential.bind hmark fun _ => sequential.bind hcommands fun _ =>
      sequential.bind (sequential.each (fun _ => keeping_runDelete _) _) fun _ =>
        sequential.bind (keeping_update fun _ hw => eachTable_withVars hw (hP.empty i)) fun _ =>
          sequential.bind (sequential.each (fun _ => keeping_fireUnset _ _ _) _) fun _ =>
            keeping_update (f := fun w => ((), w.withInterpreter i fun s => { s with vars := ∅ }))
              fun _ hw => eachTable_withVars hw (hP.empty i)

theorem keeping_functions (h : Nat) (f : Handle → Handle) :
    Keeping S P cs c (Program.modify fun w => w.withHandle h f) :=
  keeping_update (f := fun w => ((), w.withHandle h f)) fun _ hw => hw

theorem watchful (hP : Stable T P) (hT : ∀ i t handle, t.action = .callback handle → T i t) :
    Program.Watchful (Keeping S P cs c) where
  toSequential := sequential
  overflow := .overflow
  update := keeping_steady
  request _ := keeping_request _
  runDelete _ := keeping_runDelete
  dispose _ := keeping_dispose hP
  fireTraces _ r _ _ := keeping_fireTraces r _
  store _ := keeping_store hP
  unset _ := keeping_unset hP
  register _ _ _ hcreate := sequential.register hcreate (keeping_functions _ _)
  traceVar _ name key _ _ := sequential.traceVar
    (fun _ => keeping_addTrace hP name key (hT _ _ _ rfl)) (keeping_functions _ _)
  untraceVar _ name key _ _ := sequential.untraceVar (fun _ => keeping_removeTrace hP name key)
    (keeping_functions _ _)

/-- Every call keeps the property of all tables, if the traces that are installed are those
of the bridge or may be any. -/
theorem holds (hP : Stable T P) (hT : ∀ i t handle, t.action = .callback handle → T i t)
    (hS : ∀ cs c w i, S.calls cs c w → c.tracing? = some i → ∀ t, T i t) :
    (contract P : Contract S).Holds Scenario.handle := by
  intro cs c w hs hpre
  have h : Program.Watchful (Keeping S P cs c) := watchful hP hT
  refine (h.handle (fun j step hc => ?_) (fun j t r flags _ _ => ?_)
    fun j handle key _ => ?_) w hpre
  · subst hc
    exact h.runStep
      (fun htracing name key t => keeping_addTrace hP name key (hS cs _ w j hs htracing t))
      (keeping_removeTrace hP)
  · cases haction : t.action with
    | callback handle =>
      exact h.conduct.fireTrace j t r flags (keeping_addTrace hP _ _ (hT j t handle haction))
    | scripted procedure body veto =>
      unfold Scenario.fireTrace
      rw [haction]
      exact h.conduct.runTrace j procedure body veto r flags
  · exact keeping_functions _ _

theorem between : (contract P : Contract S).Between (World.EachTable P) where
  pre _ _ _ hw := hw
  post _ _ _ _ hw' := hw'
  aside _ _ hw ha := eachTable_of_steady hw ha.steady

end Variables.Stable

/-- What the operations on tables keep holds of every table at every moment of a session,
in between the operations as well as after them. -/
theorem Machine.Occurs.stable {P : Nat → Variables → Prop}
    (hP : Variables.Stable (fun _ _ => True) P) {w₀ : World} (h₀ : w₀.EachTable P) {root : Call}
    {m : Machine root} (hm : m.Occurs {} Scenario.handle w₀) : m.world.EachTable P :=
  hm.invariant (hP.holds (fun _ _ _ _ => trivial) fun _ _ _ _ _ _ _ => trivial)
    Variables.Stable.between (fun _ _ _ _ _ hchange => hchange) h₀

/-- **The variable tables are well formed at every moment.**  Whatever calls the host makes
one after the other, and whatever the traces and host functions do that they lead to: at
every step of every call, only arrays have elements, every element has a value or a trace,
and no variable is entered that is undefined and has neither traces nor elements. -/
theorem Machine.Occurs.variables_wellFormed {w₀ : World}
    (h₀ : w₀.AllTables Variables.WellFormed) {root : Call} {m : Machine root}
    (hm : m.Occurs {} Scenario.handle w₀) (i : Nat) {name : String} {v : Variable}
    (hv : (m.world.interpreter i).vars[name]? = some v) :
    ((∃ key : String, (v.elements[key]?).isSome = true) → v.isArray = true) ∧
      (∀ (key : String) (e : Element), v.elements[key]? = some e →
        e.value.isSome = true ∨ e.traces ≠ []) ∧
      v.isVacant = false := by
  have h := hm.stable Variables.stable_wellFormed h₀ i name v hv
  refine ⟨fun ⟨key, hkey⟩ => ?_, fun key e he => h.occupied he, h.not_vacant⟩
  obtain ⟨e, he⟩ := Option.isSome_iff_exists.1 hkey
  exact h.isArray he

/-- A world whose interpreter has a command that writes an element and a variable with a trace
and unsets the variable; the trace writes another element and unsets the first one. -/
def World.shuffling : World :=
  let reaction : List InterpreterStep :=
    [.write "a" (some "j") (.text "w") .none, .unset "a" (some "k") .none]
  let body : List InterpreterStep :=
    [.write "a" (some "k") (.text "v") .none,
      .trace "b" none .traceUnsets "client" "procedure" reaction none,
      .write "b" none (.text "x") .none, .unset "b" none .none]
  (World.bridged 10).withInterpreter 0 fun s =>
    { s with commands := s.commands.insert "run" { procedure := .scripted "run" body none .ok } }

/-- An array to which elements are written, and from which one is unset by a trace. -/
theorem Machine.Occurs.variables_wellFormed_array :
    World.shuffling.AllTables Variables.WellFormed ∧
    ∃ (m : Machine (.invoke 0 [.text "run"])) (v : Variable),
      m.Occurs {} Scenario.handle .shuffling ∧ (m.world.interpreter 0).vars["b"]?.isNone = true ∧
        (m.world.interpreter 0).vars["a"]? = some v ∧ (v.elements["j"]?).isSome = true ∧
        (v.elements["k"]?).isNone = true ∧ v.isArray = true := by
  have h₀ : World.shuffling.AllTables Variables.WellFormed := by
    intro i
    rw [World.shuffling, World.apply_withInterpreter (·.vars) rfl, World.vars_bridged]
    exact .empty
  have hstart : Machine.Occurs {} Scenario.handle .shuffling
      (.start Scenario.handle (.invoke 0 [.text "run"]) .shuffling) := .start trivial
  have hwalk : (Machine.walk Scenario.handle (fun _ => true) 60
      (.start Scenario.handle (.invoke 0 [.text "run"]) .shuffling)).map (fun m =>
        let vs := (m.world.interpreter 0).vars
        (vs["b"]?.isNone, vs["a"]?.any fun v =>
          (v.elements["j"]?).isSome && (v.elements["k"]?).isNone)) = some (true, true) := by
    decide +kernel
  obtain ⟨m, hwalk, hend⟩ := Option.map_eq_some_iff.1 hwalk
  have hm := hstart.walk (fun _ _ _ => Machine.leads_of_step) hwalk
  obtain ⟨hb, ha⟩ := Prod.mk.inj hend
  obtain ⟨v, hv, hkeys⟩ := (Option.any_eq_true ..).1 ha
  rw [Bool.and_eq_true] at hkeys
  refine ⟨h₀, m, v, hm, hb, hv, hkeys.1, hkeys.2, ?_⟩
  exact (hm.variables_wellFormed h₀ 0 hv).1 ⟨"j", hkeys.1⟩

end CommandBridge
