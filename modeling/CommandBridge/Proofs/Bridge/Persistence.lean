/-
# Traces that last

A trace of the bridge that asks for unsets goes away with its variable or element and is
told so, and then it installs itself again.  So it is there whenever nothing is in progress
in its interpreter, however often the variable is unset and by whom
(`Machine.Watched.persists`), as long as

* nobody removes it and the interpreter is not disposed of,
* it is not taken away while traces of its variable or element are firing, since those
  that are unset then fire no traces (`Persistence.lost_while_firing`), and
* it can be installed when it is told to: the variable of an element has not become a
  scalar meanwhile.

The trace is what brings itself back (`Persistence.restoration`).
-/

import CommandBridge.Proofs.Bridge.Restoration

namespace CommandBridge

/-- The trace goes away as it may: not by being removed, and not while traces of its
variable or element are firing. -/
structure World.Departs (w : World) (i : Nat) (r : VarRef) (w' : World) : Prop where
  unset : ∀ r' flags client, w' ≠ w.untraced i r' flags client
  quiet : r ∉ (w.interpreter i).active

/-- The runs in which a trace lasts.  The monitor is in the state `true` from a change on
that leaves the trace installed, as long as the trace does not go away otherwise than it
may, the interpreter is not disposed of and the trace can be installed when it is told to
install itself. -/
def lasting (i : Nat) (r : VarRef) (t : Trace) : Monitor Bool where
  calls _ c s w := s = true → c.Reinstates i r t →
    ∃ vs, (w.interpreter i).vars.addTrace r t = .ok vs
  changes _ _ s w s' w' := s' = true → (w'.interpreter i).disposed = false ∧
    (w'.Installed i r t ∨ s = true ∧ (w.Installed i r t → w.Departs i r w'))

namespace Persistence

variable {i h f : Nat} {flags : Flags} {r : VarRef} {t : Trace} {cs : List Call} {c : Call}

/-- The trace is to be there, and it brings itself back. -/
def restoration (i : Nat) {r : VarRef} {t : Trace} (ht : t.Lasting)
    (hr : VarRef.resolve r.name r.key = r) : Restoration where
  interp := i
  monitor := lasting i r t
  There w := w.Installed i r t
  Brings r' t' := r' = r ∧ t' = t
  mono hmore _ := hmore r t
  brought := by
    rintro w _ _ ⟨rfl, rfl⟩ hin
    rwa [hr] at hin
  installs := by
    rintro cs c w _ _ hs ⟨rfl, rfl⟩ hre
    rw [hr]
    exact hs rfl hre
  since hs := (hs rfl).2.imp_right And.left
  spared hs := (hs rfl).1
  departs := by
    intro cs c s w r' groups vs _ hs hin hgone
    have hdeparts := ((hs rfl).2.resolve_left hgone).2 hin
    refine ⟨r, t, ⟨rfl, rfl⟩, ht, hin, fun hleft => hgone ?_, hdeparts.quiet⟩
    rw [World.Installed, World.interpreter_withInterpreter_self]
    exact hleft

/-- In the runs that are watched the trace is not removed. -/
theorem keeping_removeTrace {ht : t.Lasting} {hr : VarRef.resolve r.name r.key = r} {j : Nat}
    (name : String) (key : Option String) (flags : Flags) (client : String) :
    (restoration i ht hr).Keeping cs c (Interp.removeTrace j name key flags client) := by
  intro a D Q _ s w h s' hs
  refine ⟨trivial, h.withVars hs fun _ hs' hin => ?_⟩
  by_cases hj : j = i
  · subst j
    refine (hs hs').2.elim id fun ⟨_, hdeparts⟩ => ?_
    exact absurd rfl ((hdeparts hin).unset (VarRef.resolve name key) flags client)
  · change World.Installed _ i r t
    rw [World.Installed, World.interpreter_withInterpreter, if_neg hj]
    exact hin

/-- What functions handles keep is of no account. -/
theorem served (ht : t.Lasting) (hr : VarRef.resolve r.name r.key = r) :
    (restoration i ht hr).Served cs c := by
  have hhandle : ∀ h f, (restoration i ht hr).Keeping cs c
      (Program.modify fun w => w.withHandle h f) := fun h f =>
    Restoration.keeping_update (f := fun w => ((), w.withHandle h f)) fun _ => ⟨rfl, id, id⟩
  exact {
    register := fun _ _ _ hcreate => Restoration.sequential.register hcreate (hhandle _ _)
    traceVar := fun _ name key _ _ => Restoration.sequential.traceVar
      (fun _ => Restoration.keeping_addTrace name key _) (hhandle _ _)
    untraceVar := fun _ name key _ _ => Restoration.sequential.untraceVar
      (fun _ => keeping_removeTrace name key) (hhandle _ _)
    forget := fun _ _ _ _ => hhandle _ _
    removeTrace := fun _ _ _ => keeping_removeTrace }

end Persistence

/-- **Traces last.**  A trace that asks for unsets is on its variable or element whenever a
call is made or has replied and nothing is in progress in its interpreter: whatever calls
the host makes one after the other and however calls lead into each other, however often
and by whom the variable is unset, as long as the trace is not removed, the interpreter is
not disposed of, the trace is not taken away while traces of its variable or element are
firing, and it can be installed when it is told to install itself again.  The name of the
variable means the same when it is resolved once more. -/
theorem Machine.Watched.persists {i h f : Nat} {flags : Flags} {r : VarRef}
    (hu : flags.contains .traceUnsets = true) (hr : VarRef.resolve r.name r.key = r) {s₀ : Bool}
    {w₀ : World} (h₀ : s₀ = true → w₀.Installed i r (Bridge.traceOf h flags f)) {root : Call}
    {m : Machine root}
    (hm : m.Watched (lasting i r (Bridge.traceOf h flags f)) Scenario.handle s₀ w₀ true) :
    (∀ d k, m.code = .call d k → Call.Idle i (d :: m.stack.calls) →
        m.world.Installed i r (Bridge.traceOf h flags f)) ∧
      ∀ a, m.code = .done a → Call.Idle i m.stack.calls →
        m.world.Installed i r (Bridge.traceOf h flags f) := by
  obtain ⟨hcall, hdone⟩ := Machine.Watched.there
    (P := Persistence.restoration i (Bridge.lasting_traceOf h f hu) hr)
    (fun _ _ _ _ _ => Persistence.served _ _) h₀ hm
  refine ⟨fun d k hd hidle => hcall d k hd (fun _ hre => ?_) hidle rfl, fun a ha hidle =>
    hdone a ha hidle rfl⟩
  obtain ⟨flags', later, rfl, -⟩ := hre
  exact absurd hidle (Restoration.not_idle rfl)

/-! ### A variable with traces -/

/-- The world of a host that knows a handle as `m` and its first two functions as `f` and
`g`, with a variable that has a value and on which some of the functions are traces. -/
def World.staged (functions : List HostFunction) (traces : List (Flags × Nat)) : World :=
  { (World.bridged 10).withInterpreter 0 fun s => { s with
      vars := (∅ : Variables).insert "a" {
        content := .scalar (.text "v")
        traces := traces.map fun t => Bridge.traceOf 0 t.1 t.2 } }
    with
    handles := Pool.empty.add {
      interpreter := 0
      functions := traces.foldl (fun fs t => fs.insert (Bridge.clientName t.2) t.2) ∅ }
    heap := {
      functions := functions.foldl Pool.add .empty
      objects := Pool.empty.add (.handle 0) }
    bench := {
      labels := (((∅ : Std.ExtTreeMap String HostValue).insert "m" (.object 0)).insert "f"
        (.function 0)).insert "g" (.function 1) } }

instance Bridge.decidableEqTraceOf (t : Trace) (h : Nat) (flags : Flags) (f : Nat) :
    Decidable (t = traceOf h flags f) :=
  match t with
  | ⟨flags', client, .callback h'⟩ =>
    decidable_of_iff (flags' = traceFlags flags ∧ client = clientName f ∧ h' = h) (by
      rw [traceOf, Trace.mk.injEq, TraceAction.callback.injEq])
  | ⟨_, _, .scripted ..⟩ => .isFalse fun he => nomatch (Trace.mk.inj he).2.2

instance World.decidableInstalled (w : World) (i : Nat) (r : VarRef) (h : Nat) (flags : Flags)
    (f : Nat) : Decidable (w.Installed i r (Bridge.traceOf h flags f)) :=
  decidable_of_iff (∃ t ∈ (w.interpreter i).vars.tracesOn r, t = Bridge.traceOf h flags f)
    ⟨fun ⟨_, ht, he⟩ => he ▸ ht, fun ht => ⟨_, ht, rfl⟩⟩

/-- An unset is no removal. -/
theorem World.departs_of_holds {w w' : World} {i : Nat} {r : VarRef}
    (hr : r ∉ (w.interpreter i).active)
    (h : (w'.interpreter i).vars.holds r ≠ (w.interpreter i).vars.holds r) : w.Departs i r w' := by
  refine ⟨fun r' flags client he => h ?_, hr⟩
  rw [he, untraced, interpreter_withInterpreter_self]
  exact Variables.holds_removeTrace ..

/-- Whether it can be seen that the monitor may go on saying that the trace lasts. -/
def Persistence.lasts (i : Nat) (r : VarRef) (t : Trace) [∀ w : World, Decidable (w.Installed i r t)]
    {root : Call} (m : Machine root) : Bool :=
  match m.code with
  | .set w' _ => !(w'.interpreter i).disposed &&
      (decide (w'.Installed i r t) || !decide (m.world.Installed i r t) ||
        decide (r ∉ (m.world.interpreter i).active ∧
          (w'.interpreter i).vars.holds r ≠ (m.world.interpreter i).vars.holds r))
  | .call .. => ((m.world.interpreter i).vars.addTrace r t).toBool
  | _ => true

theorem Persistence.leadsWith_of_lasts {i : Nat} {r : VarRef} {t : Trace}
    [∀ w : World, Decidable (w.Installed i r t)] {root : Call} {handler : Machine.Handler}
    (m m' : Machine root) (h : lasts i r t m = true) (hstep : m.step handler = .inl m') :
    Machine.LeadsWith (lasting i r t) handler (true, m) (true, m') := by
  refine Machine.leadsWith_self hstep (fun w' p hcode => ?_) fun d k hcode => ?_
  · rw [lasts, hcode] at h
    dsimp only at h
    rw [Bool.and_eq_true, Bool.or_eq_true, Bool.or_eq_true, Bool.not_eq_true',
      Bool.not_eq_true', decide_eq_true_iff, decide_eq_false_iff_not, decide_eq_true_iff] at h
    refine fun _ => ⟨h.1, ?_⟩
    rcases h.2 with (hafter | hbefore) | ⟨hquiet, hholds⟩
    · exact .inl hafter
    · exact .inr ⟨rfl, fun ht => absurd ht hbefore⟩
    · exact .inr ⟨rfl, fun _ => World.departs_of_holds hquiet hholds⟩
  · rw [lasts, hcode] at h
    refine fun _ _ => ?_
    cases hadd : (m.world.interpreter i).vars.addTrace r t with
    | ok vs => exact ⟨vs, rfl⟩
    | error e =>
      rw [hadd] at h
      cases h

/-- Whether a machine is about to reply while nothing is in progress in the interpreter. -/
def Machine.rests (i : Nat) {root : Call} (m : Machine root) : Bool :=
  match m.code with
  | .done _ => m.stack.calls.all fun c => c.interpreter? != some i
  | _ => false

theorem Machine.exists_of_rests {i : Nat} {root : Call} {m : Machine root}
    (h : m.rests i = true) : (∃ a, m.code = .done a) ∧ Call.Idle i m.stack.calls := by
  unfold rests at h
  split at h
  · rename_i a ha
    exact ⟨⟨a, ha⟩, fun c hc => bne_iff_ne.1 (List.all_eq_true.1 h c hc)⟩
  · cases h

/-- A variable with a trace is unset, and at the reply the trace is there. -/
theorem Machine.Watched.persists_unset :
    Flags.traceUnsets.contains .traceUnsets = true ∧ VarRef.resolve "a" none = ⟨"a", none⟩ ∧
    (World.staged [.silent "f"] [(.traceUnsets, 0)]).Installed 0 ⟨"a", none⟩
      (Bridge.traceOf 0 .traceUnsets 0) ∧
    ∃ m : Machine (.bridgeStep { op := .unsetVar "m" "a" none .none }),
      m.Watched (lasting 0 ⟨"a", none⟩ (Bridge.traceOf 0 .traceUnsets 0)) Scenario.handle true
        (.staged [.silent "f"] [(.traceUnsets, 0)]) true ∧
      (m.world.interpreter 0).vars.holds ⟨"a", none⟩ = false ∧
      m.world.Installed 0 ⟨"a", none⟩ (Bridge.traceOf 0 .traceUnsets 0) := by
  have hu : Flags.traceUnsets.contains .traceUnsets = true := by decide
  have hr : VarRef.resolve "a" none = ⟨"a", none⟩ := by decide +kernel
  have h₀ : (World.staged [.silent "f"] [(.traceUnsets, 0)]).Installed 0 ⟨"a", none⟩
      (Bridge.traceOf 0 .traceUnsets 0) := by decide +kernel
  have hstart : Machine.Watched (lasting 0 ⟨"a", none⟩ (Bridge.traceOf 0 .traceUnsets 0))
      Scenario.handle true (.staged [.silent "f"] [(.traceUnsets, 0)]) true
      (.start Scenario.handle (.bridgeStep { op := .unsetVar "m" "a" none .none }) _) :=
    .start fun _ ⟨_, hd, _⟩ => nomatch hd
  have hwalk : (Machine.walk Scenario.handle
      (Persistence.lasts 0 ⟨"a", none⟩ (Bridge.traceOf 0 .traceUnsets 0)) 26
      (.start Scenario.handle (.bridgeStep { op := .unsetVar "m" "a" none .none })
        (.staged [.silent "f"] [(.traceUnsets, 0)]))).map
      (fun m => m.rests 0 && !(m.world.interpreter 0).vars.holds ⟨"a", none⟩) = some true := by
    decide +kernel
  obtain ⟨m, hwalk, hend⟩ := Option.map_eq_some_iff.1 hwalk
  have hm := hstart.walk Persistence.leadsWith_of_lasts hwalk
  rw [Bool.and_eq_true, Bool.not_eq_true'] at hend
  obtain ⟨⟨a, ha⟩, hidle⟩ := Machine.exists_of_rests hend.1
  exact ⟨hu, hr, h₀, m, hm, hend.2, (hm.persists hu hr fun _ => h₀).2 a ha hidle⟩

/-- A trace that is taken away while it is firing does not come back. -/
theorem Persistence.lost_while_firing :
    let w := World.staged
      [.scripted "f" (.ofActions · [.step { op := .unsetVar "m" "a" none .none }])] [(⟨80⟩, 0)]
    w.Installed 0 ⟨"a", none⟩ (Bridge.traceOf 0 ⟨80⟩ 0) ∧
    ∃ result w', Program.Runs Scenario.handle
        (Scenario.handle (.bridgeStep { op := .getVar "m" "a" none .none }))
        w result w' ∧
      (w'.interpreter 0).deleted = false ∧
      ¬w'.Installed 0 ⟨"a", none⟩ (Bridge.traceOf 0 ⟨80⟩ 0) := by
  intro w
  refine ⟨by decide +kernel, ?_⟩
  have houtcome : ((Scenario.outcome 500
      (.bridgeStep { op := .getVar "m" "a" none .none }) w).bind Ending.reply?).map
      (fun p => (p.2.interpreter 0).deleted ||
        decide (p.2.Installed 0 ⟨"a", none⟩ (Bridge.traceOf 0 ⟨80⟩ 0))) = some false := by
    decide +kernel
  obtain ⟨result, w', hruns, hend⟩ := Machine.exists_runs_of_run houtcome
  rw [Bool.or_eq_false_iff, decide_eq_false_iff_not] at hend
  exact ⟨result, w', hruns, hend⟩

end CommandBridge
