/-
# The result register during accesses to variables

A trace of the bridge saves the result register before it calls its function and puts it back
afterwards (`Bridge.result_of_runs_callTraced`).  Whatever the functions do, a variable that is
read or written successfully leaves the register as it was.  An unset does so too, with one
exception: a trace that is told to install itself again and is refused leaves a message in the
register, though the unset succeeds (`Interp.result_overwritten`).

All this holds as long as the traces are of the bridge.  That they are is kept by everything
but the steps that install other ones (`Variables.stable_bridged`), so it may be used whenever
traces fire in the middle of an access.
-/

import CommandBridge.Proofs.Bridge.Restoration
import CommandBridge.Proofs.Interpreter.Frame
import CommandBridge.Proofs.Run.Nesting

namespace CommandBridge

/-! ### Traces of the bridge -/

namespace Variables

/-- All traces are of the bridge. -/
def Bridged (vs : Variables) : Prop :=
  ∀ r, ∀ t ∈ vs.tracesOn r, ∃ handle, t.action = .callback handle

variable {vs vs' : Variables} {r : VarRef} {t : Trace}

theorem Bridged.of_subset (h : vs.Bridged) (hvs : ∀ r, vs'.tracesOn r ⊆ vs.tracesOn r) :
    vs'.Bridged :=
  fun r t ht => h r t (hvs r ht)

theorem Bridged.addTrace (h : vs.Bridged) (ht : ∃ handle, t.action = .callback handle)
    (hadd : vs.addTrace r t = .ok vs') : vs'.Bridged := by
  intro r' t' ht'
  rw [tracesOn_addTrace hadd] at ht'
  split at ht'
  · rcases List.mem_cons.1 ht' with rfl | ht'
    · exact ht
    · exact h r t' ht'
  · exact h r' t' ht'

/-- The traces of an interpreter stay those of the bridge, whatever is done with others. -/
theorem stable_bridged (i : Nat) :
    Stable (fun j t => j = i → ∃ handle, t.action = .callback handle)
      fun j vs => j = i → vs.Bridged where
  empty _ _ r t ht := by
    rw [tracesOn_empty] at ht
    cases ht
  store h hstore hi := (h hi).of_subset fun r => tracesOn_store hstore r ▸ List.Subset.refl _
  detach h hdetach hi := (h hi).of_subset fun r => ((detached hdetach).sublist r).subset
  addTrace h ht hadd hi := (h hi).addTrace (ht hi) hadd
  removeTrace h r flags client hi :=
    (h hi).of_subset fun r' => (tracesOn_removeTrace _ r flags client r').subset

/-- The traces that an access fires are of the bridge. -/
theorem Bridged.of_mem_tracesFor (h : vs.Bridged) {op : Flags} (ht : t ∈ vs.tracesFor r op) :
    ∃ handle, t.action = .callback handle :=
  (mem_tracesFor ht).elim (h _ t) (h _ t)

/-- Traces are refused on elements of scalars only. -/
theorem eq_notArray_of_addTrace {e : VarError} (h : vs.addTrace r t = .error e) :
    e = .notArray := by
  unfold addTrace at h
  dsimp only at h
  split at h
  · cases h
  · exact (Except.error.inj h).symm
  · cases h

end Variables

/-! ### What a trace does to the register -/

namespace Bridge

variable {handler : Machine.Handler} {i handle : Nat} {client : String} {r : VarRef} {flags : Flags}
  {w w' : World} {α : Type}

/-- What a function does to the register is taken back. -/
theorem result_of_runs_callTraced {veto : Option String}
    (h : Program.Runs handler (callTraced i handle client r flags) w veto w') :
    (w'.interpreter i).result = (w.interpreter i).result := by
  replace h := Program.runs_reading_iff.1 (Program.runs_reading_iff.1 h)
  obtain ⟨_, w₁, -, h⟩ := Program.runs_bind_iff.1 h
  obtain ⟨outcome, w₂, -, h⟩ := Program.runs_bind_iff.1 h
  obtain ⟨_, w₃, hset, h⟩ := Program.runs_bind_iff.1 h
  obtain ⟨-, rfl⟩ := Program.runs_done_iff.1 h
  rw [Interp.runs_setResult_iff.1 hset, World.interpreter_withResult]

theorem result_of_runs_withHost {p : Program α} {a : Option α}
    (hp : ∀ v b v', Program.Runs handler p v b v' →
      (v'.interpreter i).result = (v.interpreter i).result)
    (h : Program.Runs handler (withHost p) w a w') :
    (w'.interpreter i).result = (w.interpreter i).result := by
  replace h := Program.runs_reading_iff.1 h
  split at h
  · obtain ⟨b, w₁, hb, h⟩ := Program.runs_bind_iff.1 (Program.runs_modify_iff.1 h)
    replace h := Program.runs_modify_iff.1 h
    obtain ⟨-, rfl⟩ := Program.runs_done_iff.1 h
    have hsame := hp _ b w₁ hb
    exact hsame
  · obtain ⟨-, rfl⟩ := Program.runs_done_iff.1 h
    rfl

end Bridge

namespace Interp

/-- The message that is left where a trace on a variable or on an element of it is refused. -/
def refusal (name : String) (key : Option String) : Value :=
  .text (accessMessage "trace" (VarRef.resolve name key) VarError.notArray.message)

/-- Installing a trace leaves the register alone, or the message if the trace is refused. -/
theorem result_of_runs_addTrace {handler : Machine.Handler} {i : Nat} {name : String}
    {key : Option String} {t : Trace} {w w' : World} {status : Status}
    (h : Program.Runs handler (addTrace i name key t) w status w') :
    (w'.interpreter i).result = (w.interpreter i).result ∨
      (∃ e, (w.interpreter i).vars.addTrace (VarRef.resolve name key) t = .error e) ∧
        (w'.interpreter i).result = refusal name key := by
  replace h := Program.runs_reading_iff.1 h
  split at h
  · replace h := Program.runs_modify_iff.1 h
    obtain ⟨-, rfl⟩ := Program.runs_done_iff.1 h
    exact .inl (World.apply_withInterpreter (·.result) rfl i)
  · rename_i e he
    obtain rfl := Variables.eq_notArray_of_addTrace he
    obtain ⟨_, w₁, hset, h⟩ := Program.runs_bind_iff.1 h
    obtain ⟨-, rfl⟩ := Program.runs_done_iff.1 h
    refine .inr ⟨⟨_, he⟩, ?_⟩
    rw [runs_setResult_iff.1 hset, World.interpreter_withResult]
    rfl

end Interp

/-- A trace of the bridge leaves the register alone, or the message if it is told to install
itself again and is refused. -/
theorem Scenario.result_of_runs_fireTrace {handler : Machine.Handler} {i : Nat} {t : Trace}
    {r : VarRef} {flags : Flags} {w w' : World} {veto : Option String}
    (ht : ∃ handle, t.action = .callback handle)
    (h : Program.Runs handler (fireTrace i t r flags) w veto w') :
    (w'.interpreter i).result = (w.interpreter i).result ∨
      t.reinstalls flags = true ∧
      (∃ e, (w.interpreter i).vars.addTrace (VarRef.resolve r.name r.key) t = .error e) ∧
        (w'.interpreter i).result = Interp.refusal r.name r.key := by
  by_cases hre : t.reinstalls flags = true
  · rw [fireTrace_of_reinstalls hre] at h
    obtain ⟨status, w₁, hadd, h⟩ := Program.runs_bind_iff.1 h
    have hend : w' = w₁ := by
      split at h
      · exact (Program.runs_done_iff.1 (Program.runs_reading_iff.1 h)).2
      · exact (Program.runs_done_iff.1 h).2
    subst hend
    exact (Interp.result_of_runs_addTrace hadd).imp_right fun hrefused => ⟨hre, hrefused⟩
  · left
    obtain ⟨handle, haction⟩ := ht
    rcases fireTrace_of_not_reinstalls haction hre i r with heq | heq
    · rw [heq] at h
      obtain ⟨-, rfl⟩ := Program.runs_done_iff.1 h
      rfl
    · rw [heq] at h
      obtain ⟨outcome, w₁, hhost, h⟩ := Program.runs_bind_iff.1 h
      obtain ⟨-, rfl⟩ := Program.runs_done_iff.1 h
      exact Bridge.result_of_runs_withHost (fun _ _ _ => Bridge.result_of_runs_callTraced) hhost

/-! ### Accesses -/

/-- The executions in which no traces are installed in an interpreter but by the bridge. -/
def bridging (i : Nat) : Scope where
  calls _ c _ := c.tracing? ≠ some i

namespace ResultRegister

/-- An interpreter has traces of the bridge only, and its result has a property. -/
structure Settled (i : Nat) (Q : Value → Prop) (w : World) : Prop where
  bridged : (w.interpreter i).vars.Bridged
  result : Q (w.interpreter i).result

variable {i : Nat} {Q : Value → Prop} {P : Program.Demand} {cs : List (Call × World)}
  {w w' : World}

theorem Settled.of_eq (hw : Settled i Q w)
    (hvars : (w'.interpreter i).vars = (w.interpreter i).vars)
    (hresult : (w'.interpreter i).result = (w.interpreter i).result) : Settled i Q w' :=
  ⟨hvars ▸ hw.bridged, hresult ▸ hw.result⟩

/-- Which traces are firing is of no account. -/
theorem Settled.withActive (hw : Settled i Q w) (f : List VarRef → List VarRef) :
    Settled i Q (w.withInterpreter i fun s => { s with active := f s.active }) :=
  hw.of_eq (World.apply_withInterpreter (f := fun s => { s with active := f s.active })
      (·.vars) rfl i)
    (World.apply_withInterpreter (f := fun s => { s with active := f s.active }) (·.result) rfl i)

theorem Settled.withVars (hw : Settled i Q w) {vs : Variables} (hvs : vs.Bridged) :
    Settled i Q (w.withVars i vs) :=
  ⟨by rwa [World.vars_withVars], by rw [World.result_withVars]; exact hw.result⟩

/-- Where there is no value nothing is to be shown. -/
theorem ensures_none (p : Program Unit) (w : World) : Program.Ensures Scenario.handle P cs
    (do p; return none) w fun (value : Option Value) w' => value.isSome = true → Settled i Q w' :=
  .bind fun _ _ _ => .pure nofun

section

variable (hP : ∀ cs c w, P cs c w → c.tracing? ≠ some i)
include hP

/-- A call leaves an interpreter with traces of the bridge only. -/
theorem bridged_of_nests {c : Call} {a : c.Reply}
    (h : Program.Nests Scenario.handle P cs (Program.request c) w a w')
    (hw : (w.interpreter i).vars.Bridged) : (w'.interpreter i).vars.Bridged := by
  let Own (j : Nat) (vs : Variables) : Prop := j = i → vs.Bridged
  have hholds : (Variables.Stable.contract Own : Contract (bridging i)).Holds Scenario.handle :=
    (Variables.stable_bridged i).holds (fun _ _ handle ht _ => ⟨handle, ht⟩)
      fun _ _ _ j hs hc _ hj => absurd (hj ▸ hc) hs
  have hkeeps : Variables.Stable.Keeping (bridging i) Own [] c (Program.request c) :=
    Variables.Stable.keeping_request c
  obtain ⟨log, hmakes, hlog⟩ := h.makes
  have hcalls : ∀ d ∈ log, d.tracing? ≠ some i := fun d hd => by
    obtain ⟨cs', v, hd⟩ := hlog d hd
    exact hP cs' d v hd
  exact (hmakes.meets_within (fun _ _ _ _ => trivial) hholds (fun d hd _ _ => hcalls d hd)
    (hkeeps w fun j hj => hj ▸ hw)).1 i rfl

/-- A trace of the bridge is fired.  If it is told to install itself again and is refused, then
the message has to have the property, too. -/
theorem ensures_fire {t : Trace} (ht : ∃ handle, t.action = .callback handle) {r : VarRef}
    {flags : Flags} {later : List Firing} (hw : Settled i Q w)
    (hrefused : P cs (.fire i t r flags later) w → t.reinstalls flags = true →
      ∀ e, (w.interpreter i).vars.addTrace (VarRef.resolve r.name r.key) t = .error e →
        Q (Interp.refusal r.name r.key)) :
    Program.Ensures Scenario.handle P cs (Program.request (.fire i t r flags later)) w
      fun _ => Settled i Q := by
  intro veto w' h
  refine ⟨bridged_of_nests hP h hw.bridged, ?_⟩
  obtain ⟨hcall, hfire⟩ := h.of_request
  rcases Scenario.result_of_runs_fireTrace ht hfire.runs with hsame | ⟨hre, ⟨e, he⟩, hmessage⟩
  · rw [hsame]
    exact hw.result
  · rw [hmessage]
    exact hrefused hcall hre e he

/-! #### Reading and writing -/

theorem ensures_fireEach {r : VarRef} {flags : Flags} {ts : List Trace}
    (hts : ∀ t ∈ ts, (∃ handle, t.action = .callback handle) ∧ t.reinstalls flags = false)
    (hw : Settled i Q w) :
    Program.Ensures Scenario.handle P cs (Interp.fireEach i r flags ts) w fun _ => Settled i Q := by
  induction ts generalizing w with
  | nil => exact .pure hw
  | cons t ts ih =>
    obtain ⟨ht, hre⟩ := hts t List.mem_cons_self
    refine .bind ((ensures_fire hP ht hw fun _ h => nomatch hre.symm.trans h).imp
      fun veto w₁ hw₁ => ?_)
    cases veto with
    | some message => exact .pure hw₁
    | none => exact ih (fun t ht => hts t (List.mem_cons_of_mem _ ht)) hw₁

/-- On an access no trace installs itself again. -/
theorem ensures_fireTraces {r : VarRef} {op : Flags} (hop : op.IsAccess) (flags : Flags)
    (hw : Settled i Q w) :
    Program.Ensures Scenario.handle P cs (Interp.fireTraces i r op flags) w
      fun _ => Settled i Q := by
  refine .bind (.reading ?_)
  dsimp only
  split
  · exact .pure hw
  · have hts : ∀ t ∈ (w.interpreter i).vars.tracesFor r op,
        (∃ handle, t.action = .callback handle) ∧ t.reinstalls (op.union flags.scope) = false :=
      fun t ht => ⟨hw.bridged.of_mem_tracesFor ht, t.not_reinstalls_of_isAccess hop flags⟩
    refine .bind (.modify (.bind ?_))
    refine (ensures_fireEach hP hts (hw.withActive _)).imp fun veto w₁ hw₁ => ?_
    exact .bind (.modify (.pure (hw₁.withActive _)))

theorem ensures_readRef (r : VarRef) (flags : Flags) (hw : Settled i Q w) :
    Program.Ensures Scenario.handle P cs (Interp.readRef i r flags) w
      fun value w' => value.isSome = true → Settled i Q w' := by
  refine .bind ((ensures_fireTraces hP .reads flags hw).imp fun veto w₁ hw₁ => ?_)
  cases veto with
  | some message => exact ensures_none _ _
  | none =>
    refine .bind (.reading ?_)
    split
    · exact .pure fun _ => hw₁
    · exact ensures_none _ _

theorem ensures_writeRef (r : VarRef) (v : Value) (flags : Flags) (hw : Settled i Q w) :
    Program.Ensures Scenario.handle P cs (Interp.writeRef i r v flags) w
      fun value w' => value.isSome = true → Settled i Q w' := by
  refine .bind (.update ?_)
  cases hstore : (w.interpreter i).vars.store r v flags with
  | error e => exact ensures_none _ _
  | ok result =>
    obtain ⟨new, vs⟩ := result
    have hvs : vs.Bridged := (Variables.stable_bridged i).store (fun _ => hw.bridged) hstore rfl
    refine .bind ((ensures_fireTraces hP .writes flags (hw.withVars hvs)).imp fun veto w₁ hw₁ => ?_)
    cases veto with
    | some message => exact ensures_none _ _
    | none =>
      refine .bind (.reading ?_)
      split <;> exact .pure fun _ => hw₁

theorem ensures_write (name : String) (key : Option String) (v : Value) (flags : Flags)
    (hw : Settled i Q w) :
    Program.Ensures Scenario.handle P cs (Interp.write i name key v flags) w
      fun value w' => value.isSome = true → Settled i Q w' := by
  unfold Interp.write
  dsimp only
  split
  · refine .bind ((ensures_fireTraces hP .reads flags hw).imp fun veto w₁ hw₁ => ?_)
    cases veto with
    | some message => exact ensures_none _ _
    | none => exact ensures_writeRef hP _ v flags hw₁
  · exact .bind (.pure (ensures_writeRef hP _ v flags hw))

/-! #### Unsetting -/

/-- Where the access itself tells a trace on the variable or on an element to install itself
again and it is refused, the message has the property, too. -/
def Permits (P : Program.Demand) (cs : List (Call × World)) (i : Nat) (name : String)
    (Q : Value → Prop) : Prop :=
  ∀ key t flags later v, P cs (.fire i t ⟨name, key⟩ flags later) v →
    t.reinstalls flags = true → ∀ e,
      (v.interpreter i).vars.addTrace (VarRef.resolve name key) t = .error e →
        Q (Interp.refusal name key)

theorem ensures_fireAll {name : String} (hpermits : Permits P cs i name Q) (key : Option String)
    (flags : Flags) (others : List Firing) {ts : List Trace}
    (hts : ∀ t ∈ ts, ∃ handle, t.action = .callback handle) (hw : Settled i Q w) :
    Program.Ensures Scenario.handle P cs (Interp.fireAll i ⟨name, key⟩ flags others ts) w
      fun _ => Settled i Q := by
  induction ts generalizing w with
  | nil => exact .pure hw
  | cons t ts ih =>
    have hfire := ensures_fire hP (hts t List.mem_cons_self) hw
      (hpermits key t flags (Interp.firings ⟨name, key⟩ flags ts ++ others) w)
    refine .bind (.bind (hfire.imp fun _ w₁ hw₁ => .pure ?_))
    exact ih (fun t ht => hts t (List.mem_cons_of_mem _ ht)) hw₁

theorem ensures_fireGroup {name : String} (hpermits : Permits P cs i name Q) (extra : Flags)
    {g : UnsetGroup} (others : List UnsetGroup)
    (hts : ∀ t ∈ g.traces, ∃ handle, t.action = .callback handle) (hw : Settled i Q w) :
    Program.Ensures Scenario.handle P cs (Interp.fireGroup i name extra g others) w
      fun _ => Settled i Q := by
  refine .bind (.reading ?_)
  split
  · exact .pure hw
  · refine .bind (.modify (.bind ?_))
    refine (ensures_fireAll hP hpermits _ _ _ (fun t ht => hts t (List.mem_filter.1 ht).1)
      (hw.withActive _)).imp fun _ w₁ hw₁ => ?_
    exact .modify (hw₁.withActive _)

theorem ensures_fireUnset {name : String} (hpermits : Permits P cs i name Q) (extra : Flags)
    {groups : List UnsetGroup}
    (hts : ∀ g ∈ groups, ∀ t ∈ g.traces, ∃ handle, t.action = .callback handle)
    (hw : Settled i Q w) :
    Program.Ensures Scenario.handle P cs (Interp.fireUnset i name extra groups) w
      fun _ => Settled i Q := by
  induction groups generalizing w with
  | nil => exact .pure hw
  | cons g groups ih =>
    refine .bind ((ensures_fireGroup hP hpermits extra groups (hts g List.mem_cons_self) hw).imp
      fun _ w₁ hw₁ => ?_)
    exact ih (fun g' hg' => hts g' (List.mem_cons_of_mem g hg')) hw₁

theorem ensures_unset (name : String) (key : Option String) (flags : Flags)
    (hpermits : Permits P cs i (VarRef.resolve name key).name Q) (hw : Settled i Q w) :
    Program.Ensures Scenario.handle P cs (Interp.unset i name key flags) w
      fun status w' => status = .ok → Settled i Q w' := by
  refine .bind (.update ?_)
  cases hdetach : (w.interpreter i).vars.detach (VarRef.resolve name key) with
  | error e => exact .bind fun _ _ _ => .pure nofun
  | ok result =>
    obtain ⟨groups, vs⟩ := result
    have hvs : vs.Bridged := (Variables.stable_bridged i).detach (fun _ => hw.bridged) hdetach rfl
    have hts : ∀ g ∈ groups, ∀ t ∈ g.traces, ∃ handle, t.action = .callback handle :=
      fun g hg t ht => hw.bridged _ t (Variables.traces_of_mem_groups hdetach hg ▸ ht)
    refine .bind ((ensures_fireUnset hP hpermits _ hts (hw.withVars hvs)).imp fun _ w₁ hw₁ => ?_)
    exact .pure fun _ => hw₁

end

end ResultRegister

/-- The call tells a trace to install itself again, and it is refused. -/
def Call.isRefused (w : World) : Call → Bool
  | .fire i t r flags _ => t.reinstalls flags &&
      !((w.interpreter i).vars.addTrace (VarRef.resolve r.name r.key) t).isOk
  | _ => false

namespace Interp
open ResultRegister

/-- In the interpreter, traces are installed by the bridge only. -/
def byBridge (i : Nat) : Program.Demand :=
  fun _ c _ => c.tracing? ≠ some i

/-- None of the traces that the access itself tells to install themselves again is refused,
either. -/
def unrefused (i : Nat) : Program.Demand :=
  fun cs c w => c.tracing? ≠ some i ∧ (cs = [] → c.isRefused w = false)

instance decidableByBridge (i : Nat) (cs : List (Call × World)) (c : Call) (w : World) :
    Decidable (byBridge i cs c w) :=
  inferInstanceAs (Decidable (c.tracing? ≠ some i))

instance decidableUnrefused (i : Nat) (cs : List (Call × World)) (c : Call) (w : World) :
    Decidable (unrefused i cs c w) :=
  inferInstanceAs (Decidable (c.tracing? ≠ some i ∧ (cs = [] → c.isRefused w = false)))

/-- **Accesses keep the result register.**  Take an interpreter whose traces are all of the
bridge, and in which no other traces are installed.  Whatever the functions of its traces do,
a variable or element that is read or written successfully leaves the register as it was.  So
does an unset, unless one of the traces that are to install themselves again is refused; the
register then holds the message of such a refusal. -/
theorem result_kept {w : World} {i : Nat} (hw : (w.interpreter i).vars.Bridged) (name : String)
    (key : Option String) (flags : Flags) :
    Program.Ensures Scenario.handle (byBridge i) [] (read i name key flags) w
        (fun value w' => value.isSome = true →
          (w'.interpreter i).result = (w.interpreter i).result) ∧
      (∀ v, Program.Ensures Scenario.handle (byBridge i) [] (write i name key v flags) w
        fun value w' => value.isSome = true →
          (w'.interpreter i).result = (w.interpreter i).result) ∧
      Program.Ensures Scenario.handle (unrefused i) [] (unset i name key flags) w
        (fun status w' => status = .ok →
          (w'.interpreter i).result = (w.interpreter i).result) ∧
      Program.Ensures Scenario.handle (byBridge i) [] (unset i name key flags) w
        (fun status w' => status = .ok →
          (w'.interpreter i).result = (w.interpreter i).result ∨
            ∃ elem, (w'.interpreter i).result = refusal (VarRef.resolve name key).name elem) := by
  have hbridge : ∀ cs c v, byBridge i cs c v → c.tracing? ≠ some i := fun _ _ _ h => h
  have hsaved : Settled i (· = (w.interpreter i).result) w := ⟨hw, rfl⟩
  refine ⟨?_, fun v => ?_, ?_, ?_⟩
  · exact (ensures_readRef hbridge _ flags hsaved).imp fun _ _ h hsome => (h hsome).result
  · exact (ensures_write hbridge name key v flags hsaved).imp fun _ _ h hsome => (h hsome).result
  · have hpermits : Permits (unrefused i) [] i (VarRef.resolve name key).name
        (· = (w.interpreter i).result) := by
      intro elem t flags later v hcall hre e he
      have hrefused := hcall.2 rfl
      rw [Call.isRefused, hre, he] at hrefused
      cases hrefused
    exact (ensures_unset (fun _ _ _ h => h.1) name key flags hpermits hsaved).imp
      fun _ _ h hok => (h hok).result
  · have hpermits : Permits (byBridge i) [] i (VarRef.resolve name key).name
        fun v => v = (w.interpreter i).result ∨
          ∃ elem, v = refusal (VarRef.resolve name key).name elem :=
      fun elem _ _ _ _ _ _ _ _ => .inr ⟨elem, rfl⟩
    exact (ensures_unset hbridge name key flags hpermits ⟨hw, .inl rfl⟩).imp
      fun _ _ h hok => (h hok).result

end Interp

/-- An array with one element.  The element is traced by one function, the array for unsets by
another one. -/
def Variables.pending : Variables :=
  (∅ : Variables).insert "a" {
    content := .array
    traces := [Bridge.traceOf 0 .traceUnsets 1]
    elements := (∅ : Std.ExtTreeMap String Element).insert "k" {
      value := some (.text "v")
      traces := [Bridge.traceOf 0 ((Flags.traceReads.union .traceWrites).union .traceUnsets) 0] } }

theorem Variables.bridged_pending : pending.Bridged := by
  rintro ⟨name, key⟩ t ht
  rw [pending, tracesOn_insert, tracesOn_empty] at ht
  split at ht
  · cases key with
    | none => exact ⟨0, by rw [List.mem_singleton.1 ht]; rfl⟩
    | some key =>
      dsimp only [Variable.tracesAt] at ht
      rw [getElem?_insert_name, Std.ExtTreeMap.getElem?_empty] at ht
      split at ht
      · exact ⟨0, by rw [List.mem_singleton.1 ht]; rfl⟩
      · cases ht
  · cases ht

/-- A world with these variables and a text in the result register.  The first function
evaluates a script, the second one makes a scalar of the array. -/
def World.pending : World :=
  { (World.bridged 10).withInterpreter 0 fun s => { s with
      result := .text "kept"
      vars := .pending }
    with
    handles := Pool.empty.add {
      interpreter := 0
      functions := ((∅ : Std.ExtTreeMap String Nat).insert (Bridge.clientName 0) 0).insert
        (Bridge.clientName 1) 1 }
    heap := {
      functions := (Pool.empty.add (.scripted "f"
        (.ofActions · [.step { op := .eval "m" "set b 1" }]))).add
        (.scripted "g" (.ofActions ·
          [.step { op := .eval "m" "unset a" }, .step { op := .eval "m" "set a 1" }]))
      objects := Pool.empty.add (.handle 0) }
    bench := { labels := (∅ : Std.ExtTreeMap String HostValue).insert "m" (.object 0) } }

namespace Interp

/-- The element is read and written, and its function evaluates a script meanwhile.  The array
is unset, and both traces install themselves again. -/
theorem result_kept_pending :
    (World.pending.interpreter 0).vars.Bridged ∧
    (∃ value w', Program.Nests Scenario.handle (byBridge 0) [] (read 0 "a" (some "k") .none)
        .pending value w' ∧ value.isSome = true ∧
      (w'.interpreter 0).vars.defined ⟨"b", none⟩ = true ∧
      (w'.interpreter 0).result = .text "kept") ∧
    (∃ value w', Program.Nests Scenario.handle (byBridge 0) []
        (write 0 "a" (some "k") (.text "w") .none) .pending value w' ∧ value.isSome = true ∧
      (w'.interpreter 0).vars.defined ⟨"b", none⟩ = true ∧
      (w'.interpreter 0).result = .text "kept") ∧
    ∃ w', Program.Nests Scenario.handle (unrefused 0) [] (unset 0 "a" none .none) .pending .ok w' ∧
      (w'.keysOn 0 ⟨"a", none⟩).length = 1 ∧ (w'.keysOn 0 ⟨"a", some "k"⟩).length = 1 ∧
      (w'.interpreter 0).result = .text "kept" := by
  have hbridged : (World.pending.interpreter 0).vars.Bridged := Variables.bridged_pending
  have hread : (Program.carry Scenario.handle (byBridge 0) 100 []
      (read 0 "a" (some "k") .none) .pending).map (fun o =>
        (o.1.isSome, (o.2.interpreter 0).vars.defined ⟨"b", none⟩)) = some (true, true) := by
    decide +kernel
  have hwrite : (Program.carry Scenario.handle (byBridge 0) 100 []
      (write 0 "a" (some "k") (.text "w") .none) .pending).map (fun o =>
        (o.1.isSome, (o.2.interpreter 0).vars.defined ⟨"b", none⟩)) = some (true, true) := by
    decide +kernel
  have hunset : (Program.carry Scenario.handle (unrefused 0) 100 []
      (unset 0 "a" none .none) .pending).map (fun o =>
        (o.1, (o.2.keysOn 0 ⟨"a", none⟩).length, (o.2.keysOn 0 ⟨"a", some "k"⟩).length)) =
          some (.ok, 1, 1) := by
    decide +kernel
  obtain ⟨hkeepsRead, hkeepsWrite, -, -⟩ := result_kept hbridged "a" (some "k") .none
  obtain ⟨-, -, hkeepsUnset, -⟩ := result_kept hbridged "a" none .none
  obtain ⟨value, w₁, hn₁, h₁⟩ := Program.exists_nests_of_carry hread
  obtain ⟨hsome₁, hb₁⟩ := Prod.mk.inj h₁
  obtain ⟨value', w₂, hn₂, h₂⟩ := Program.exists_nests_of_carry hwrite
  obtain ⟨hsome₂, hb₂⟩ := Prod.mk.inj h₂
  obtain ⟨status, w₃, hn₃, h₃⟩ := Program.exists_nests_of_carry hunset
  obtain ⟨rfl, hkeys⟩ := Prod.mk.inj h₃
  obtain ⟨hwhole, helem⟩ := Prod.mk.inj hkeys
  exact ⟨hbridged, ⟨value, w₁, hn₁, hsome₁, hb₁, hkeepsRead _ _ hn₁ hsome₁⟩,
    ⟨value', w₂, hn₂, hsome₂, hb₂, hkeepsWrite _ _ _ hn₂ hsome₂⟩,
    w₃, hn₃, hwhole, helem, hkeepsUnset _ _ hn₃ rfl⟩

/-- The element is unset.  The function of the array makes a scalar of it, and the trace on the
element can no longer be installed. -/
theorem result_overwritten :
    (World.pending.interpreter 0).vars.Bridged ∧
    (World.pending.interpreter 0).result = .text "kept" ∧
    ∃ w', Program.Nests Scenario.handle (byBridge 0) [] (unset 0 "a" (some "k") .none) .pending
        .ok w' ∧
      (w'.interpreter 0).result.str = "can't trace \"a(k)\": variable isn't array" := by
  have hunset : (Program.carry Scenario.handle (byBridge 0) 100 []
      (unset 0 "a" (some "k") .none) .pending).map (fun o =>
        (o.1, (o.2.interpreter 0).result.str)) =
          some (.ok, "can't trace \"a(k)\": variable isn't array") := by
    decide +kernel
  obtain ⟨status, w', hnests, h⟩ := Program.exists_nests_of_carry hunset
  obtain ⟨rfl, hmessage⟩ := Prod.mk.inj h
  exact ⟨Variables.bridged_pending, rfl, w', hnests, hmessage⟩

end Interp
end CommandBridge
