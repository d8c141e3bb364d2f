/-
# Untracing takes back what tracing did

Installing a trace on a variable or element may enter the variable, enter an element and
make an array of an undefined variable.  Removing it again takes the element and the
variable away if nothing else is left of them.  In a well-formed table this is exactly what
was entered (`Variables.removeTrace_addTrace`), with one exception: an array stays an array.
So if a function has no other traces, then tracing a variable for it and untracing it
leaves the world as it was (`Bridge.untraceVar_traceVar`), unless an element of a variable
is traced that is not there or is there for its traces only (`Bridge.untraceVar_leaves`).
-/

import CommandBridge.Proofs.Bridge.FunctionTable
import CommandBridge.Proofs.Bridge.Removal
import CommandBridge.Proofs.Interpreter.Frame

namespace CommandBridge

namespace Variables

variable {vs vs₁ : Variables} {r : VarRef} {t : Trace} {client : String} {flags : Flags}

/-- What is left of a table when a trace on a variable or element has been installed and
removed: a variable is an array now if an element was meant and there was none. -/
def residue (vs : Variables) (r : VarRef) : Variables :=
  if r.key.isSome && !vs.holds ⟨r.name, none⟩ then
    vs.insert r.name { vs[r.name]?.getD {} with content := .array }
  else vs

/-- A variable that was changed is put back, or dropped if it was not there. -/
theorem WellFormed.settle_insert (h : vs.WellFormed) (name : String) (v : Variable) :
    Variables.settle (vs.insert name v) name (vs[name]?.getD {}) = vs := by
  unfold Variables.settle
  cases hv : vs[name]? with
  | none => exact (if_pos rfl).trans ((erase_insert v).trans (erase_of_getElem? hv))
  | some old =>
    rw [Option.getD_some, (h name old hv).not_vacant, if_neg Bool.false_ne_true, insert_insert,
      insert_of_getElem? hv]

/-- An element that was changed is put back, or dropped if it was not there. -/
theorem elements_restored {v : Variable} (h : v.Coherent) (key : String) (e' : Element) :
    (if (v.elements[key]?.getD {}).value.isNone && (v.elements[key]?.getD {}).traces.isEmpty then
      (v.elements.insert key e').erase key
    else (v.elements.insert key e').insert key (v.elements[key]?.getD {})) = v.elements := by
  cases he : v.elements[key]? with
  | none => exact (if_pos rfl).trans ((erase_insert e').trans (erase_of_getElem? he))
  | some e =>
    have hblank : (e.value.isNone && e.traces.isEmpty) = false := by
      rw [Bool.and_eq_false_iff, Option.isNone_eq_false_iff, List.isEmpty_eq_false_iff]
      exact h.occupied he
    rw [Option.getD_some, hblank, if_neg Bool.false_ne_true, insert_insert,
      insert_of_getElem? he]

/-- What is no scalar is made an array, which it may be already. -/
theorem insert_array {name : String} (h : ∀ value, (vs[name]?.getD {}).content ≠ .scalar value)
    (key : String) : Std.ExtTreeMap.insert vs name { vs[name]?.getD {} with content := .array } =
      vs.residue ⟨name, some key⟩ := by
  rw [residue, holds_whole, Variable.holds]
  cases hc : (vs[name]?.getD {}).content with
  | undefined => rfl
  | scalar value => exact absurd hc (h value)
  | array =>
    refine insert_of_getElem? ?_
    cases hv : vs[name]? with
    | none =>
      rw [hv] at hc
      cases hc
    | some v =>
      rw [hv] at hc
      rw [Option.getD_some] at hc ⊢
      rw [← hc]

theorem tracesOn_residue (vs : Variables) (r r' : VarRef) :
    (vs.residue r).tracesOn r' = vs.tracesOn r' := by
  unfold residue
  split
  · refine tracesOn_insert_same (fun key => ?_) r'
    rw [Variable.tracesAt_withContent, tracesAt_getD]
  · rfl

theorem residue_of_holds (h : r.key = none ∨ vs.holds ⟨r.name, none⟩ = true) :
    vs.residue r = vs := by
  refine if_neg fun hr => ?_
  rw [Bool.and_eq_true, Bool.not_eq_true'] at hr
  rcases h with h | h
  · rw [h] at hr
    exact Bool.false_ne_true hr.1
  · exact nomatch hr.2.symm.trans h

/-- **Removing a trace takes back what installing it did**, but for the array that was made. -/
theorem WellFormed.removeTrace_addTrace (h : vs.WellFormed) (hadd : vs.addTrace r t = .ok vs₁)
    (ht : isTraceOf client flags t = true) :
    vs₁.removeTrace r flags client = (true, vs.residue r) := by
  obtain ⟨name, key⟩ := r
  have hv := h.coherent_getD name
  unfold Variables.addTrace at hadd
  dsimp only at hadd
  split at hadd
  · obtain rfl := Except.ok.inj hadd
    rw [Variables.removeTrace, getElem?_insert_name, if_pos rfl]
    dsimp only
    rw [List.any_cons, ht, Bool.true_or, List.eraseP_cons_of_pos ht]
    exact congrArg _ (h.settle_insert name _)
  · cases hadd
  · rename_i key hscalar
    obtain rfl := Except.ok.inj hadd
    rw [Variables.removeTrace, getElem?_insert_name, if_pos rfl]
    dsimp only
    rw [getElem?_insert_name, if_pos rfl]
    dsimp only
    rw [List.any_cons, ht, Bool.true_or, if_pos rfl, List.eraseP_cons_of_pos ht,
      elements_restored hv]
    exact congrArg _ ((insert_insert _ _).trans (insert_array hscalar key))

end Variables

/-! ### The world -/

theorem Pool.put_of_get? {α : Type} {p : Pool α} {id : Nat} {a : α} (h : p.get? id = some a) :
    p.put id a = p := by
  have hid : id < p.next := p.lt_next id (Std.ExtTreeMap.mem_iff_isSome_getElem?.2
    (Option.isSome_iff_exists.2 ⟨a, h⟩))
  have hentries : p.entries.insert id a = p.entries := by
    refine Std.ExtTreeMap.ext_getElem? fun n => ?_
    rw [Std.ExtTreeMap.getElem?_insert]
    split
    · rename_i hn
      rw [← Std.LawfulEqCmp.compare_eq_iff_eq.1 hn]
      exact h.symm
    · rfl
  cases p
  simp only [put, mk.injEq]
  exact ⟨hentries, by dsimp only at hid; omega⟩

theorem World.withVars_self {w : World} {i : Nat} {s : Interpreter}
    (hi : w.interpreters.get? i = some s) : w.withVars i (w.interpreter i).vars = w := by
  have hs : w.interpreter i = s := by rw [World.interpreter, Pool.get, hi, Option.getD_some]
  rw [withVars, withInterpreter, hs, Pool.put_of_get? hi]

namespace Bridge

/-- Where there is no function to drop nothing changes. -/
theorem forgetting_eq {w : World} {h : Nat} {key : String} {s : Handle}
    (hh : w.handles.get? h = some s) (hkey : (w.handle h).functions[key]? = none) :
    forgetting w h key = w := by
  have hs : w.handle h = s := by rw [World.handle, Pool.get, hh, Option.getD_some]
  rw [forgetting, World.withHandle, erase_of_getElem? hkey, hs, Pool.put_of_get? hh]

/-- A function that is kept and dropped is dropped. -/
theorem forgetting_keeping (w : World) (h : Nat) (key : String) (f : Nat) :
    forgetting (keeping w h key f) h key = forgetting w h key := by
  rw [forgetting, World.withHandle, keeping, World.handle_withHandle, if_pos rfl, erase_insert,
    World.withHandle, Pool.put_put]
  rfl

variable {w w₁ : World} {h i f : Nat} {name : String} {key : Option String} {flags : Flags}
  {handler : Machine.Handler}

/-- A function without other traces is traced: the trace is installed and the function kept. -/
theorem exists_addTrace_of_runs (hi : live? w h = some i)
    (hnone : ∀ t ∈ (w.interpreter i).vars.tracesOn (VarRef.resolve name key),
      t.client ≠ clientName f)
    (hr : Program.Runs handler (traceVar h name key flags f) w (.ok ()) w₁) :
    ∃ vs, (w.interpreter i).vars.addTrace (VarRef.resolve name key) (traceOf h flags f) = .ok vs ∧
      w₁ = keeping (w.withVars i vs) h (clientName f) f := by
  have hnew : ¬((w.interpreter i).vars.tracesOn (VarRef.resolve name key)).any
      (isInstalled (traceOf h flags f).client (traceOf h flags f).flags) = true := by
    intro hany
    obtain ⟨t, ht, hinstalled⟩ := List.any_eq_true.1 hany
    rw [isInstalled, Bool.and_eq_true, beq_iff_eq] at hinstalled
    exact hnone t ht hinstalled.1
  replace hr := (runs_traceVar_iff hi).1 hr
  rw [installed, if_neg hnew] at hr
  cases hadd : (w.interpreter i).vars.addTrace (VarRef.resolve name key) (traceOf h flags f) with
  | ok vs =>
    rw [hadd] at hr
    replace hr := Program.runs_set_iff.1 (Program.runs_get_iff.1 hr)
    exact ⟨vs, rfl, (Program.runs_done_iff.1 hr).2⟩
  | error e =>
    rw [hadd] at hr
    rcases (finishTrace_spec hr).2 with ⟨message, -, hresult⟩ | ⟨hstatus, -⟩
    · cases hresult
    · exact absurd rfl hstatus

/-- Neither other variables nor other functions make a handle less alive. -/
theorem live?_keeping (w : World) (i : Nat) (vs : Variables) (h : Nat) (key : String) (f : Nat) :
    live? (keeping (w.withVars i vs) h key f) h = live? w h := by
  have hhandle : (keeping (w.withVars i vs) h key f).handle h =
      { w.handle h with functions := (w.handle h).functions.insert key f } := by
    rw [keeping, World.handle_withHandle, if_pos rfl]
    rfl
  have hdeleted : ∀ j, ((keeping (w.withVars i vs) h key f).interpreter j).deleted =
      (w.interpreter j).deleted := fun j => by
    have hsame : ((w.withVars i vs).interpreter j).deleted = (w.interpreter j).deleted :=
      World.apply_withInterpreter (f := fun s => { s with vars := vs }) (·.deleted) rfl j
    exact hsame
  rw [live?, live?, hhandle]
  dsimp only
  rw [hdeleted]

/-- What untracing makes of the world in which a trace has been installed. -/
theorem ceased_keeping (hwell : (w.interpreter i).vars.WellFormed)
    (hnone : ∀ r, ∀ t ∈ (w.interpreter i).vars.tracesOn r, t.client ≠ clientName f)
    {r : VarRef} {vs : Variables}
    (hadd : (w.interpreter i).vars.addTrace r (traceOf h flags f) = .ok vs) :
    ceased (keeping (w.withVars i vs) h (clientName f) f) h i r flags f =
      forgetting (w.withVars i ((w.interpreter i).vars.residue r)) h (clientName f) := by
  have hmeant :
      Variables.isTraceOf (clientName f) (traceFlags flags) (traceOf h flags f) = true := by
    rw [Variables.isTraceOf, traceOf, beq_self_eq_true, beq_self_eq_true, Bool.and_self]
  have huntraced : (keeping (w.withVars i vs) h (clientName f) f).untraced i r (traceFlags flags)
      (clientName f) = keeping (w.withVars i ((w.interpreter i).vars.residue r)) h
        (clientName f) f := by
    change keeping ((w.withVars i vs).untraced i r (traceFlags flags) (clientName f)) h
      (clientName f) f = _
    rw [World.untraced, World.withVars, World.withInterpreter_withInterpreter]
    dsimp only
    rw [hwell.removeTrace_addTrace hadd hmeant]
    rfl
  have hcount : ((keeping (w.withVars i ((w.interpreter i).vars.residue r)) h (clientName f)
      f).interpreter i).vars.clientCount (clientName f) = 0 := by
    refine Nat.eq_zero_of_not_pos fun hpos => ?_
    obtain ⟨r', t, ht, hclient⟩ := Variables.clientCount_pos_iff.1 hpos
    change t ∈ ((w.withVars i ((w.interpreter i).vars.residue r)).interpreter i).vars.tracesOn r'
      at ht
    rw [World.vars_withVars, Variables.tracesOn_residue] at ht
    exact hnone r' t ht hclient
  unfold ceased
  rw [huntraced]
  dsimp only
  rw [if_pos hcount]
  exact forgetting_keeping _ _ _ _

/-- **Untracing takes back what tracing did.**  A function without traces in an interpreter is
traced and untraced with the same arguments.  If the first succeeds, then so does the second,
and the world is what it was before, but for a function that the handle kept for the traces of
this function though there were none.  So whatever is done then comes to the same as without
the two.

What is traced is a variable, or an element of a variable that is there for more than its
traces. -/
theorem untraceVar_traceVar (hi : live? w h = some i) {s : Interpreter} {s' : Handle}
    (hinterp : w.interpreters.get? i = some s) (hhandle : w.handles.get? h = some s')
    (hwell : (w.interpreter i).vars.WellFormed)
    (hnone : ∀ r, ∀ t ∈ (w.interpreter i).vars.tracesOn r, t.client ≠ clientName f)
    (hvar : (VarRef.resolve name key).key = none ∨
      (w.interpreter i).vars.holds ⟨(VarRef.resolve name key).name, none⟩ = true)
    (hr : Program.Runs handler (traceVar h name key flags f) w (.ok ()) w₁) :
    (untraceVar h name key flags f).Does w₁ (pure (.ok ())) (forgetting w h (clientName f)) ∧
      ((w.handle h).functions[clientName f]? = none → forgetting w h (clientName f) = w) := by
  obtain ⟨vs, hadd, rfl⟩ := exists_addTrace_of_runs hi (hnone _) hr
  refine ⟨.of_runs fun handler => ?_, forgetting_eq hhandle⟩
  rw [runs_untraceVar_iff ((live?_keeping w i vs h (clientName f) f).trans hi),
    ceased_keeping hwell hnone hadd, Variables.residue_of_holds hvar, World.withVars_self hinterp]
  exact ⟨rfl, rfl⟩

/-- Tracing succeeds where the trace can be installed. -/
theorem runs_traceVar_ok (hi : live? w h = some i) {vs : Variables}
    (hnone : ∀ t ∈ (w.interpreter i).vars.tracesOn (VarRef.resolve name key),
      t.client ≠ clientName f)
    (hadd : (w.interpreter i).vars.addTrace (VarRef.resolve name key) (traceOf h flags f) =
      .ok vs) :
    ∃ w₁, Program.Runs handler (traceVar h name key flags f) w (.ok ()) w₁ := by
  obtain ⟨result, w₁, hr⟩ : ∃ result w₁,
      Program.Runs handler (traceVar h name key flags f) w result w₁ :=
    exists_runs_traceVar hi name key flags f
  have hnew : (traceOf h flags f).key ∉ w.keysOn i (VarRef.resolve name key) := by
    intro hkey
    obtain ⟨t, ht, heq⟩ := List.mem_map.1 hkey
    exact hnone t ht (Prod.mk.inj heq).1
  cases registers_of_runs hi hr with
  | again hkey => exact absurd hkey hnew
  | joined => exact ⟨w₁, hr⟩
  | refused _ hrefused => exact nomatch hadd.symm.trans hrefused

/-- A new element of an array is traced and untraced. -/
theorem untraceVar_traceVar_rearmed :
    live? (.rearmed "f") 0 = some 0 ∧ (∃ s, (World.rearmed "f").interpreters.get? 0 = some s) ∧
    (∃ s, (World.rearmed "f").handles.get? 0 = some s) ∧
    ((World.rearmed "f").interpreter 0).vars.WellFormed ∧
    (∀ r, ∀ t ∈ ((World.rearmed "f").interpreter 0).vars.tracesOn r, t.client ≠ clientName 0) ∧
    ((World.rearmed "f").interpreter 0).vars.holds ⟨(VarRef.resolve "::a" (some "j")).name, none⟩ =
      true ∧
    ((World.rearmed "f").handle 0).functions[clientName 0]? = none ∧
    ∃ w₁, Program.Runs Scenario.handle (traceVar 0 "::a" (some "j") .traceReads 0) (.rearmed "f")
        (.ok ()) w₁ ∧
      (untraceVar 0 "::a" (some "j") .traceReads 0).Does w₁ (pure (.ok ())) (.rearmed "f") := by
  have hi : live? (.rearmed "f") 0 = some 0 := rfl
  have hwell : ((World.rearmed "f").interpreter 0).vars.WellFormed := by
    refine Variables.WellFormed.empty.insert ?_
    exact Variable.coherent_new.insert "k" .array rfl (.inl rfl)
  have hnone : ∀ r, ∀ t ∈ ((World.rearmed "f").interpreter 0).vars.tracesOn r,
      t.client ≠ clientName 0 := by
    intro r t ht
    have hkey : t.key ∈ (World.rearmed "f").keysOn 0 r := List.mem_map_of_mem ht
    rw [World.keysOn_rearmed] at hkey
    cases hkey
  have hholds : ((World.rearmed "f").interpreter 0).vars.holds
      ⟨(VarRef.resolve "::a" (some "j")).name, none⟩ = true := by decide +kernel
  have hkept : ((World.rearmed "f").handle 0).functions[clientName 0]? = none := by decide +kernel
  have hadd : ∃ vs, ((World.rearmed "f").interpreter 0).vars.addTrace
      (VarRef.resolve "::a" (some "j")) (traceOf 0 .traceReads 0) = .ok vs := ⟨_, rfl⟩
  obtain ⟨vs, hadd⟩ := hadd
  obtain ⟨w₁, hr⟩ : ∃ w₁, Program.Runs Scenario.handle
      (traceVar 0 "::a" (some "j") .traceReads 0) (.rearmed "f") (.ok ()) w₁ :=
    runs_traceVar_ok hi (hnone _) hadd
  obtain ⟨hdoes, hsame⟩ := untraceVar_traceVar hi rfl rfl hwell hnone (.inr hholds) hr
  rw [hsame hkept] at hdoes
  exact ⟨hi, ⟨_, rfl⟩, ⟨_, rfl⟩, hwell, hnone, hholds, hkept, w₁, hr, hdoes⟩

/-- An element of a variable that is not there is traced and untraced.  The variable could be
set before and cannot be set afterwards. -/
theorem untraceVar_leaves :
    live? (.bridged 10) 0 = some 0 ∧
    (∀ r, ∀ t ∈ ((World.bridged 10).interpreter 0).vars.tracesOn r, t.client ≠ clientName 0) ∧
    (∃ w', (Interp.write 0 "a" none (.text "5") .none).Does (.bridged 10)
      (pure (some (.text "5"))) w') ∧
    ∃ w₁ w₂, Program.Runs Scenario.handle (traceVar 0 "a" (some "k") .traceReads 0)
        (.bridged 10) (.ok ()) w₁ ∧
      Program.Runs Scenario.handle (untraceVar 0 "a" (some "k") .traceReads 0) w₁ (.ok ()) w₂ ∧
      ∃ w', (Interp.write 0 "a" none (.text "5") .none).Does w₂ (pure none) w' := by
  have hi : live? (.bridged 10) 0 = some 0 := rfl
  have hvars : ((World.bridged 10).interpreter 0).vars = ∅ := rfl
  have huntraced : ((World.bridged 10).interpreter 0).vars.Untraced :=
    fun r => hvars ▸ Variables.tracesOn_empty r
  have hnone : ∀ r, ∀ t ∈ ((World.bridged 10).interpreter 0).vars.tracesOn r,
      t.client ≠ clientName 0 := fun r t ht => nomatch huntraced r ▸ ht
  have hwhole : VarRef.resolve "a" none = ⟨"a", none⟩ := by decide +kernel
  have helement : VarRef.resolve "a" (some "k") = ⟨"a", some "k"⟩ := by decide +kernel
  obtain ⟨vs, hadd⟩ : ∃ vs, ((World.bridged 10).interpreter 0).vars.addTrace
      (VarRef.resolve "a" (some "k")) (traceOf 0 .traceReads 0) = .ok vs := ⟨_, rfl⟩
  obtain ⟨w₁, hr⟩ : ∃ w₁, Program.Runs Scenario.handle
      (traceVar 0 "a" (some "k") .traceReads 0) (.bridged 10) (.ok ()) w₁ :=
    runs_traceVar_ok hi (hnone _) hadd
  obtain ⟨vs₁, hadd₁, rfl⟩ := exists_addTrace_of_runs hi (hnone _) hr
  have hstore : ((World.bridged 10).interpreter 0).vars.store (VarRef.resolve "a" none)
      (.text "5") .none =
        .ok (.text "5", (∅ : Variables).insert "a" { content := .scalar (.text "5") }) := by
    rw [hwhole]
    rfl
  have hread : Variables.read ((∅ : Variables).insert "a" { content := .scalar (.text "5") })
      (VarRef.resolve "a" none) = .ok (.text "5") := by
    rw [hwhole, Variables.read_insert, if_pos rfl]
    rfl
  refine ⟨hi, hnone, ⟨_, Interp.does_write_ok huntraced hstore hread⟩, _, _, hr,
    (runs_untraceVar_iff ((live?_keeping ..).trans hi)).2 ⟨rfl, rfl⟩, ?_⟩
  rw [ceased_keeping (hvars ▸ .empty) hnone hadd₁, helement]
  let left := ((World.bridged 10).interpreter 0).vars.residue ⟨"a", some "k"⟩
  have hleft : ((forgetting ((World.bridged 10).withVars 0 left) 0 (clientName 0)).interpreter
      0).vars = left := World.vars_withVars _ 0 left
  have hleft' : left.Untraced := fun r => (Variables.tracesOn_residue _ _ r).trans (huntraced r)
  have hrefused : left.store (VarRef.resolve "a" none) (.text "5") .none = .error .isArray := by
    rw [hwhole]
    rfl
  exact ⟨_, Interp.does_write_error (hleft.symm ▸ hleft') (hleft.symm ▸ hrefused)⟩

end Bridge
end CommandBridge
