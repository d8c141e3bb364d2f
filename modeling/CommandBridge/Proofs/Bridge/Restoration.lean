/-
# What traces bring back

A trace of the bridge that asks for unsets goes away with its variable or element, and when
it is told so it installs itself again.  So there are things that are not the case in the
middle of an unset and are again afterwards: that a trace is there, or that there is one
that calls a function.  A `Restoration` is such a thing with the traces that bring it back.
It is there whenever nothing is in progress in its interpreter (`Restoration.holds`,
`Restoration.between`), as long as the monitor lets it go away in no other way than with
such a trace while no traces of the variable or element of that trace are firing.

What a call promises depends on whether the thing is there when the call begins
(`Restoration.contract`).  The calls that are made in the middle of an unset may do as they
like; one that fires a trace which brings the thing back puts it back.

The installing and removing of traces and what becomes of their functions are of account
to each of these things in its own way (`Restoration.Served`).
-/

import CommandBridge.Proofs.Bridge.Tracing
import CommandBridge.Proofs.Interpreter.Watchful
import CommandBridge.Proofs.Run.Monitor

namespace CommandBridge

/-- Sequences of programs that keep a property keep it. -/
theorem Program.Takes.sequential {σ : Type} {M : Monitor σ} (K : M.Contract) (cs : List Call)
    (c : Call) (I : σ → World → Prop) : Program.Sequential fun _ p => p.Takes K cs c I I where
  pure := .pure
  bind := .bind
  get := .get

/-- A trace that installs itself again when it goes away with its variable. -/
structure Trace.Lasting (t : Trace) : Prop where
  callback : ∃ handle, t.action = .callback handle
  unsets : t.flags.contains .traceUnsets = true

instance Trace.decidableLasting (t : Trace) : Decidable t.Lasting :=
  match t with
  | ⟨flags, _, .callback handle⟩ =>
    decidable_of_iff (flags.contains .traceUnsets = true)
      ⟨fun h => ⟨⟨handle, rfl⟩, h⟩, fun h => h.unsets⟩
  | ⟨_, _, .scripted ..⟩ => .isFalse fun h => nomatch h.callback

theorem Bridge.lasting_traceOf (handle function : Nat) {flags : Flags}
    (h : flags.contains .traceUnsets = true) : (traceOf handle flags function).Lasting :=
  ⟨⟨handle, rfl⟩, Flags.contains_union_left h _⟩

/-- A lasting trace that has been taken away is told to install itself again. -/
theorem Trace.Lasting.reinstalls {t : Trace} (h : t.Lasting) {g : UnsetGroup}
    (hg : g.destroyed = true) (flags : Flags) :
    t.reinstalls (Interp.groupFlags flags.scope g) = true := by
  have hflags : Interp.groupFlags flags.scope g =
      (Flags.traceUnsets.union .traceDestroyed).union flags.scope := by
    rw [Interp.groupFlags, if_pos hg]
    refine congrArg Flags.mk ?_
    dsimp only [Flags.union]
    rw [UInt32.or_assoc, UInt32.or_assoc]
    exact congrArg _ (UInt32.or_comm _ _)
  obtain ⟨handle, haction⟩ := h.callback
  rw [Trace.reinstalls, haction, hflags]
  dsimp only
  rw [Flags.contains_union_scope (by decide) (by decide) (by decide), Bool.not_false,
    Bool.true_and]
  exact Flags.contains_union_left (by decide) _

/-- The interpreter that a call is about. -/
def Call.interpreter? : Call → Option Nat
  | .eval i _ => some i
  | .evalWords i _ => some i
  | .invoke i _ => some i
  | .fire i .. => some i
  | .deleted i _ => some i
  | .interpreterStep i _ => some i
  | .host .. => none
  | .bridgeStep _ => none

/-- None of the calls in progress is about the interpreter: it evaluates nothing, and no
variable of it is being accessed or unset. -/
def Call.Idle (i : Nat) (cs : List Call) : Prop :=
  ∀ c ∈ cs, c.interpreter? ≠ some i

/-- The call tells the trace to install itself again. -/
def Call.Reinstates (i : Nat) (r : VarRef) (t : Trace) (c : Call) : Prop :=
  ∃ flags later, c = .fire i t r flags later ∧ t.reinstalls flags = true

namespace World

/-- The trace is on the variable or element. -/
def Installed (w : World) (i : Nat) (r : VarRef) (t : Trace) : Prop :=
  t ∈ (w.interpreter i).vars.tracesOn r

/-- The world after a trace has been removed from a variable or element. -/
def untraced (w : World) (i : Nat) (r : VarRef) (flags : Flags) (client : String) : World :=
  w.withInterpreter i fun s => { s with vars := (s.vars.removeTrace r flags client).2 }

end World

/-- What is to be there whenever nothing is in progress in an interpreter, the traces that
bring it back and the runs that are watched.  In the state `true` the monitor says that it
has not gone away but for a while. -/
structure Restoration where
  interp : Nat
  monitor : Monitor Bool
  There : World → Prop
  Brings : VarRef → Trace → Prop
  /-- It does not go away because there are more traces. -/
  mono : ∀ {w w' : World}, (∀ r t, w.Installed interp r t → w'.Installed interp r t) →
    (∀ h, (w'.handle h).functions = (w.handle h).functions) → There w → There w'
  brought : ∀ {w : World} {r : VarRef} {t : Trace}, Brings r t →
    w.Installed interp (VarRef.resolve r.name r.key) t → There w
  installs : ∀ {cs : List Call} {c : Call} {w : World} {r : VarRef} {t : Trace},
    monitor.calls cs c true w → Brings r t → c.Reinstates interp r t →
      ∃ vs, (w.interpreter interp).vars.addTrace (VarRef.resolve r.name r.key) t = .ok vs
  since : ∀ {cs : List Call} {c : Call} {s : Bool} {w w' : World},
    monitor.changes cs c s w true w' → There w' ∨ s = true
  spared : ∀ {cs : List Call} {c : Call} {s : Bool} {w w' : World},
    monitor.changes cs c s w true w' → (w'.interpreter interp).disposed = false
  /-- An unset takes it away with a trace that brings it back. -/
  departs : ∀ {cs : List Call} {c : Call} {s : Bool} {w : World} {r : VarRef}
    {groups : List UnsetGroup} {vs : Variables},
    (w.interpreter interp).vars.detach r = .ok (groups, vs) →
      monitor.changes cs c s w true (w.withInterpreter interp fun s => { s with vars := vs }) →
        There w → ¬There (w.withInterpreter interp fun s => { s with vars := vs }) →
          ∃ r' t, Brings r' t ∧ t.Lasting ∧ w.Installed interp r' t ∧ t ∉ vs.tracesOn r' ∧
            r' ∉ (w.interpreter interp).active

namespace Restoration

variable {P : Restoration} {i j : Nat} {cs : List Call} {c : Call} {α β : Type}

/-- It is there if the monitor says so. -/
def Fit (P : Restoration) (s : Bool) (w : World) : Prop :=
  s = true → P.There w

/-- The call fires a trace that brings it back. -/
def Returns (P : Restoration) (c : Call) : Prop :=
  ∃ r t, P.Brings r t ∧ c.Reinstates P.interp r t

/-- A call leaves it as it was when the call began, or brings it back, and the traces that
are firing are the same afterwards. -/
def contract (P : Restoration) : P.monitor.Contract where
  Pre cs c s w := Call.Idle P.interp (c :: cs) → P.Fit s w
  Post cs c s w s' w' :=
    (w'.interpreter P.interp).active = (w.interpreter P.interp).active ∧
    ((w.interpreter P.interp).disposed = true → (w'.interpreter P.interp).disposed = true) ∧
    (P.Fit s w ∨ Call.Idle P.interp (c :: cs) ∨ P.Returns c → P.Fit s' w')

/-- These traces are firing, under `D` the interpreter has been disposed of, and under `Q`
it is there. -/
structure Holds (P : Restoration) (a : List VarRef) (D Q : Prop) (s : Bool) (w : World) :
    Prop where
  active : (w.interpreter P.interp).active = a
  disposed : D → (w.interpreter P.interp).disposed = true
  fit : Q → P.Fit s w

/-- Programs of the call `c` that lead from one such state of affairs to another. -/
abbrev Leads (P : Restoration) (cs : List Call) (c : Call) (a : List VarRef) (D Q : Prop)
    (a' : List VarRef) (D' Q' : Prop) (p : Program α) : Prop :=
  p.Takes P.contract cs c (P.Holds a D Q) (P.Holds a' D' Q')

/-- Programs of the call `c` after which things are as before. -/
abbrev Keeping (P : Restoration) (cs : List Call) (c : Call) : Program.Property :=
  fun _ p => ∀ a D Q, (Call.Idle P.interp (c :: cs) → Q) → P.Leads cs c a D Q a D Q p

theorem sequential : Program.Sequential (P.Keeping cs c) where
  pure b _ _ _ _ := .pure b
  bind hp hf a D Q hQ := .bind (hp a D Q hQ) fun b => hf b a D Q hQ
  get hk a D Q hQ := .get fun w => hk w a D Q hQ

/-- A change after which it is as it was. -/
theorem Holds.change {a a' : List VarRef} {D Q : Prop} {s s' : Bool} {w w' : World}
    (h : P.Holds a D Q s w) (hs : P.monitor.changes cs c s w s' w')
    (ha : (w'.interpreter P.interp).active = a')
    (hd : (w.interpreter P.interp).disposed = true → (w'.interpreter P.interp).disposed = true)
    (ht : Q → s' = true → P.There w → P.There w') : P.Holds a' D Q s' w' := by
  refine ⟨ha, fun hD => hd (h.disposed hD), fun hQ hs' => ?_⟩
  subst hs'
  rcases P.since hs with hthere | hs
  · exact hthere
  · exact ht hQ rfl (h.fit hQ hs)

theorem keeping_update {f : World → α × World}
    (hf : ∀ w, ((f w).2.interpreter P.interp).active = (w.interpreter P.interp).active ∧
      ((w.interpreter P.interp).disposed = true → ((f w).2.interpreter P.interp).disposed = true) ∧
      (P.There w → P.There (f w).2)) : P.Keeping cs c (Program.update f) :=
  fun _ _ _ _ => .update fun _ w _ h hs =>
    ⟨trivial, h.change hs ((hf w).1.trans h.active) (hf w).2.1 fun _ _ => (hf w).2.2⟩

theorem There.steady {w w' : World} (h : P.There w) (hw : w.Steady w') : P.There w' :=
  P.mono (fun r t ht => by
    rw [World.Installed, hw.vars]
    exact ht) hw.functions h

theorem Holds.steady {a : List VarRef} {D Q : Prop} {s s' : Bool} {w w' : World}
    (h : P.Holds a D Q s w) (hs : P.monitor.changes cs c s w s' w') (hw : w.Steady w') :
    P.Holds a D Q s' w' :=
  h.change hs ((hw.active _).trans h.active) ((hw.disposed _).trans ·) fun _ _ ht =>
    There.steady ht hw

theorem keeping_steady {f : World → α × World} (hf : ∀ w : World, w.Steady (f w).2) :
    P.Keeping cs c (Program.update f) :=
  fun _ _ _ _ => .update fun _ w _ h hs => ⟨trivial, h.steady hs (hf w)⟩

/-- Another interpreter may be changed. -/
theorem keeping_modifyInterpreter_of_ne (hj : j ≠ P.interp) (f : Interpreter → Interpreter) :
    P.Keeping cs c (Program.modifyInterpreter j f) := by
  refine keeping_update (f := fun w => ((), w.withInterpreter j f)) fun w => ?_
  have hsame : (w.withInterpreter j f).interpreter P.interp = w.interpreter P.interp := by
    rw [World.interpreter_withInterpreter, if_neg hj]
  dsimp only
  rw [hsame]
  refine ⟨rfl, id, P.mono (fun r t ht => ?_) fun _ => rfl⟩
  rw [World.Installed, hsame]
  exact ht

/-- Calls are made while it is there, unless they are part of something that is in
progress. -/
theorem leads_request {d : Call} {a : List VarRef} {D Q : Prop}
    (hQ : Call.Idle P.interp (d :: c :: cs) → Q) :
    P.Leads cs c a D Q a D Q (Program.request d) :=
  .request fun _ _ h _ => ⟨fun hidle => h.fit (hQ hidle), fun _ _ hpost =>
    ⟨hpost.1.trans h.active, fun hD => hpost.2.1 (h.disposed hD),
      fun hQ => hpost.2.2 (.inl (h.fit hQ))⟩⟩

theorem Idle.tail {d : Call} (h : Call.Idle i (d :: cs)) : Call.Idle i cs :=
  fun c hc => h c (List.mem_cons_of_mem _ hc)

theorem not_idle {d : Call} (h : d.interpreter? = some i) : ¬Call.Idle i (d :: cs) :=
  fun hidle => hidle d List.mem_cons_self h

theorem keeping_request (d : Call) : P.Keeping cs c (Program.request d) :=
  fun _ _ _ hQ => leads_request fun hidle => hQ (Idle.tail hidle)

/-! ### Firing traces -/

/-- The traces that are firing once those of a variable or element of an interpreter fire,
too. -/
def entered (i j : Nat) (r : VarRef) (a : List VarRef) : List VarRef :=
  if j = i then r :: a else a

/-- The traces that are firing may change, and nothing else. -/
theorem leads_active {f : List VarRef → List VarRef} {a a' : List VarRef} {D Q : Prop}
    (ha : (if j = P.interp then f a else a) = a') :
    P.Leads cs c a D Q a' D Q
      (Program.modifyInterpreter j fun s => { s with active := f s.active }) := by
  refine Program.Takes.update
    (f := fun w => ((), w.withInterpreter j fun s => { s with active := f s.active }))
    fun s w s' h hs => ⟨trivial, ?_⟩
  have hsame := fun {β : Type} (g : Interpreter → β) hg =>
    World.apply_withInterpreter (w := w) (i := j) (f := fun s => { s with active := f s.active })
      g hg P.interp
  refine h.change hs ?_ (fun hd => (hsame (·.disposed) rfl).trans hd) fun _ _ =>
    P.mono (fun r t ht => ?_) fun _ => rfl
  · rw [World.interpreter_withInterpreter, ← ha, ← h.active]
    split
    · subst j
      rfl
    · rfl
  · rw [World.Installed, hsame (·.vars) rfl]
    exact ht

theorem leads_enterTraces {r : VarRef} {a : List VarRef} {D Q : Prop} :
    P.Leads cs c a D Q (entered P.interp j r a) D Q (Interp.enterTraces j r) :=
  leads_active (f := (r :: ·)) rfl

theorem leads_leaveTraces {r : VarRef} {a : List VarRef} {D Q : Prop} :
    P.Leads cs c (entered P.interp j r a) D Q a D Q (Interp.leaveTraces j) := by
  refine leads_active (f := List.tail) ?_
  rw [entered]
  split <;> rfl

theorem leads_fireEach {r : VarRef} {flags : Flags} {a : List VarRef} {D Q : Prop}
    (hQ : Call.Idle P.interp (c :: cs) → Q) (ts : List Trace) :
    P.Leads cs c a D Q a D Q (Interp.fireEach j r flags ts) :=
  sequential.fireEach (fun _ _ => keeping_request _) ts a D Q hQ

theorem keeping_fireTraces (r : VarRef) (op flags : Flags) :
    P.Keeping cs c (Interp.fireTraces j r op flags) := by
  intro a D Q hQ s w h
  refine Program.abides_reading_iff.2 ?_
  dsimp only
  split
  · exact h
  · exact Program.Takes.bind leads_enterTraces (fun _ => .bind (leads_fireEach hQ _) fun _ =>
      .bind leads_leaveTraces fun _ => .pure _) s w h

/-- The traces of a group are fired one by one. -/
theorem leads_fireGroup {name : String} {extra : Flags} {g : UnsetGroup} {a : List VarRef}
    {D Q : Prop} (hQ : j ≠ P.interp → Call.Idle P.interp (c :: cs) → Q)
    (others : List UnsetGroup) :
    P.Leads cs c a D Q a D Q (Interp.fireGroup j name extra g others) := by
  intro s w h
  refine Program.abides_reading_iff.2 ?_
  split
  · exact h
  · refine Program.Takes.bind leads_enterTraces (fun _ => .bind (.eachWithRest fun t' _ _ => ?_)
      fun _ => leads_leaveTraces) s w h
    refine .bind (leads_request fun hidle => ?_) fun _ => .pure _
    exact hQ (fun hj => hidle _ List.mem_cons_self (congrArg some hj)) (Idle.tail hidle)

/-- A trace that waits in a group brings it back when it is fired. -/
theorem leads_fireGroup_own {r : VarRef} {t : Trace} (hbrings : P.Brings r t) (ht : t.Lasting)
    {flags : Flags} {g : UnsetGroup} {a : List VarRef} {D Q : Prop} (hr : r = ⟨r.name, g.key⟩)
    (hg : g.destroyed = true) (htg : t ∈ g.traces) (ha : r ∉ a) (others : List UnsetGroup) :
    P.Leads cs c a D False a D Q (Interp.fireGroup P.interp r.name flags.scope g others) := by
  intro s w h
  refine Program.abides_reading_iff.2 ?_
  rw [← hr, h.active, if_neg (by rwa [List.contains_iff_mem])]
  have hrest : ∀ {Q t' later}, P.Leads cs c (entered P.interp P.interp r a) D Q
      (entered P.interp P.interp r a) D Q (do
        let _ ← Program.request (.fire P.interp t' r (Interp.groupFlags flags.scope g) later)) :=
    fun {_ _ _} => .bind (leads_request fun hidle => absurd hidle (not_idle rfl)) fun _ => .pure _
  have hmem : t ∈ Interp.groupTraces g := List.mem_filter.2 ⟨htg, ht.unsets⟩
  refine Program.Takes.bind leads_enterTraces (fun _ => .bind (.eachWithRest_of_mem hmem
    (fun _ _ _ => hrest) (fun _ _ _ => hrest) fun _ =>
      .bind (.request fun s w h hs => ?_) fun _ => .pure _)
    fun _ => leads_leaveTraces) s w h
  exact ⟨fun hidle => absurd hidle (not_idle rfl), fun s' w' hpost => ⟨hpost.1.trans h.active,
    fun hD => hpost.2.1 (h.disposed hD), fun _ =>
      hpost.2.2 (.inr (.inr ⟨r, t, hbrings, _, _, rfl, ht.reinstalls hg flags⟩))⟩⟩

/-! ### Variables -/

theorem keeping_setResult (v : Value) : P.Keeping cs c (Interp.setResult j v) :=
  keeping_steady (f := fun w => ((), w.withInterpreter j fun s => { s with result := v })) fun w =>
    w.steady_withInterpreter j (f := fun s => { s with result := v }) rfl rfl rfl

theorem keeping_fail (message : String) : P.Keeping cs c (Interp.fail j message) :=
  sequential.bind (keeping_setResult _) fun _ => sequential.pure _

theorem keeping_runDelete (action : Option DeleteAction) :
    P.Keeping cs c (Interp.runDelete j action) := by
  cases action with
  | none => exact sequential.pure ()
  | some a => exact keeping_request _

/-- Other variables of an interpreter. -/
theorem Holds.withVars {a : List VarRef} {D Q : Prop} {s s' : Bool} {w : World} {vs : Variables}
    (h : P.Holds a D Q s w)
    (hs : P.monitor.changes cs c s w s' (w.withInterpreter j fun s => { s with vars := vs }))
    (ht : Q → s' = true → P.There w →
      P.There (w.withInterpreter j fun s => { s with vars := vs })) :
    P.Holds a D Q s' (w.withInterpreter j fun s => { s with vars := vs }) := by
  have hsame := fun {β : Type} (g : Interpreter → β) hg =>
    World.apply_withInterpreter (w := w) (i := j) (f := fun s => { s with vars := vs }) g hg
      P.interp
  exact h.change hs ((hsame (·.active) rfl).trans h.active) (hsame (·.disposed) rfl).trans ht

/-- It does not go away if the variables have no fewer traces. -/
theorem there_withVars {w : World} {vs : Variables}
    (hvs : ∀ r, ∀ t ∈ (w.interpreter j).vars.tracesOn r, t ∈ vs.tracesOn r) (h : P.There w) :
    P.There (w.withInterpreter j fun s => { s with vars := vs }) := by
  refine P.mono (w := w) (fun r t ht => ?_) (fun _ => rfl) h
  rw [World.Installed, World.interpreter_withInterpreter]
  split
  · rename_i hj
    exact hvs r t (hj ▸ ht)
  · exact ht

theorem keeping_store (r : VarRef) (v : Value) (flags : Flags) :
    P.Keeping cs c (Interp.store j r v flags) := by
  intro a D Q _ s w h s' hs
  refine ⟨trivial, ?_⟩
  dsimp only at hs ⊢
  split at hs
  · exact h.change hs h.active id fun _ _ ht => ht
  · rename_i hstore
    exact h.withVars hs fun _ _ => there_withVars fun r' t ht =>
      Variables.tracesOn_store hstore r' ▸ ht

theorem mem_addTrace {vs vs' : Variables} {r r' : VarRef} {t t' : Trace}
    (hadd : vs.addTrace r' t' = .ok vs') (ht : t ∈ vs.tracesOn r) : t ∈ vs'.tracesOn r := by
  rw [Variables.tracesOn_addTrace hadd]
  split
  · subst r'
    exact List.mem_cons_of_mem _ ht
  · exact ht

theorem keeping_addTrace (name : String) (key : Option String) (t : Trace) :
    P.Keeping cs c (Interp.addTrace j name key t) := by
  intro a D Q hQ s w h
  refine Program.abides_reading_iff.2 ?_
  split
  · rename_i vs hadd
    exact fun s' hs => ⟨trivial, h.withVars hs fun _ _ => there_withVars fun r t ht =>
      mem_addTrace hadd ht⟩
  · exact keeping_fail _ a D Q hQ s w h

/-! ### Unsets and disposals -/

theorem leads_fireUnset {name : String} {extra : Flags} {a : List VarRef} {D Q : Prop}
    (hQ : j ≠ P.interp → Call.Idle P.interp (c :: cs) → Q) (groups : List UnsetGroup) :
    P.Leads cs c a D Q a D Q (Interp.fireUnset j name extra groups) :=
  .eachWithRest fun _ _ => leads_fireGroup hQ

/-- If a trace that brings it back is among those that an unset has taken away, its group
does so. -/
theorem leads_fireUnset_own {r : VarRef} {t : Trace} (hbrings : P.Brings r t) (ht : t.Lasting)
    {flags : Flags} {groups : List UnsetGroup} {g : UnsetGroup} {a : List VarRef} {D Q : Prop}
    (hgroup : g ∈ groups) (hr : r = ⟨r.name, g.key⟩) (hg : g.destroyed = true)
    (htg : t ∈ g.traces) (ha : r ∉ a) :
    P.Leads cs c a D False a D Q (Interp.fireUnset P.interp r.name flags.scope groups) :=
  .eachWithRest_of_mem hgroup (fun _ _ => leads_fireGroup fun hi => absurd rfl hi)
    (fun _ _ => leads_fireGroup fun hi => absurd rfl hi)
    (leads_fireGroup_own hbrings ht hr hg htg ha)

theorem keeping_unset (name : String) (key : Option String) (flags : Flags) :
    P.Keeping cs c (Interp.unset j name key flags) := by
  intro a D Q hQ s w h
  refine Program.abides_update_iff.2 fun s' hs => ⟨trivial, ?_⟩
  cases hdetach : (w.interpreter j).vars.detach (VarRef.resolve name key) with
  | error e =>
    rw [hdetach] at hs
    have hreport : P.Keeping cs c (Interp.reportAccess j flags "unset"
        (VarRef.resolve name key) e.message) := sequential.reportAccess keeping_setResult _ _ _ _
    exact sequential.bind hreport (fun _ => sequential.pure _) a D Q hQ _ _
      (h.change hs h.active id fun _ _ ht => ht)
  | ok result =>
    obtain ⟨groups, vs⟩ := result
    rw [hdetach] at hs
    refine Program.Abides.bind ?_
    by_cases hlost : s' = true ∧ P.There w ∧
      ¬P.There (w.withInterpreter j fun s => { s with vars := vs })
    · obtain ⟨rfl, hthere, hgone⟩ := hlost
      -- only an unset in the interpreter itself takes it away
      obtain rfl : j = P.interp := by
        refine Classical.byContradiction fun hj => hgone (P.mono (w := w) (fun r t ht => ?_)
          (fun _ => rfl) hthere)
        rw [World.Installed, World.interpreter_withInterpreter, if_neg hj]
        exact ht
      obtain ⟨r, t, hbrings, hlasting, hin, hout, hquiet⟩ := P.departs hdetach hs hthere hgone
      obtain ⟨g, hg, hd, hr, htg⟩ := Variables.exists_mem_groups hdetach hin hout
      have hname : (VarRef.resolve name key).name = r.name := by rw [hr]
      rw [hname] at hr ⊢
      rw [h.active] at hquiet
      have hw : P.Holds a D False s w := ⟨h.active, h.disposed, False.elim⟩
      exact (leads_fireUnset_own hbrings hlasting hg hr hd htg hquiet _ _
        (hw.withVars hs False.elim)).imp fun _ _ _ hw' => hw'
    · exact (leads_fireUnset (fun _ => hQ) groups _ _ (h.withVars hs fun _ hs' ht =>
        Classical.byContradiction fun hgone => hlost ⟨hs', ht, hgone⟩)).imp fun _ _ _ hw' => hw'

/-- In an interpreter that is being disposed of the monitor says nothing. -/
theorem leads_clear {f : World → α} {a : List VarRef} {D Q : Prop} (hD : j = P.interp → D) :
    P.Leads cs c a D Q a D Q
      (Program.update fun w => (f w, w.withInterpreter j fun s => { s with vars := ∅ })) := by
  refine fun s w h s' hs => ⟨trivial, h.withVars hs fun _ hs' hthere => ?_⟩
  by_cases hj : j = P.interp
  · have hdisposed := (World.apply_withInterpreter (w := w) (i := j)
      (f := fun s => { s with vars := ∅ }) (·.disposed) rfl P.interp).trans (h.disposed (hD hj))
    subst hs'
    exact nomatch (P.spared hs).symm.trans hdisposed
  · refine P.mono (w := w) (fun r t ht => ?_) (fun _ => rfl) hthere
    rw [World.Installed, World.interpreter_withInterpreter, if_neg hj]
    exact ht

theorem leads_takeDown {a : List VarRef} {D Q : Prop} (hQ : Call.Idle P.interp (c :: cs) → Q)
    (hD : j = P.interp → D) : P.Leads cs c a D Q a D Q (Interp.takeDown j) := by
  have hcommands : P.Keeping cs c (Interp.takeCommands j) := keeping_steady fun w =>
    w.steady_withInterpreter j (f := fun s => { s with commands := ∅ }) rfl rfl rfl
  exact .bind (hcommands a D Q hQ) fun _ =>
    .bind (.each fun _ _ => keeping_runDelete _ a D Q hQ) fun _ =>
      .bind (leads_clear hD) fun _ =>
        .bind (.each fun _ _ => leads_fireUnset (fun _ => hQ) _) fun _ => leads_clear hD

theorem keeping_dispose : P.Keeping cs c (Interp.dispose j) := by
  intro a D Q hQ
  rw [Interp.dispose_eq]
  refine .get fun w₀ => ?_
  split
  · exact .pure ()
  · by_cases hj : j = P.interp
    · subst hj
      refine fun s w h s' hs => ⟨trivial, ?_⟩
      have hmarked : ((w.withInterpreter P.interp fun s => { s with disposed := true }).interpreter
          P.interp).disposed = true := by
        rw [World.interpreter_withInterpreter_self]
      have hw : P.Holds a True True s'
          (w.withInterpreter P.interp fun s => { s with disposed := true }) := by
        refine ⟨(World.apply_withInterpreter (·.active) rfl P.interp).trans h.active,
          fun _ => hmarked, fun _ hs' => ?_⟩
        subst hs'
        exact nomatch (P.spared hs).symm.trans hmarked
      exact (leads_takeDown (fun _ => trivial) (fun _ => trivial) _ _ hw).imp fun _ _ _ hw' =>
        ⟨hw'.active, fun _ => hw'.disposed trivial, fun _ => hw'.fit trivial⟩
    · exact .bind (keeping_modifyInterpreter_of_ne hj _ a D Q hQ) fun _ =>
        leads_takeDown hQ fun h => absurd h hj

/-! ### All programs -/

/-- What the installing and removing of traces does by a call and what becomes of their
functions, as far as it matters here. -/
structure Served (P : Restoration) (cs : List Call) (c : Call) : Prop where
  register : ∀ (handle : Nat) (name : String) (function : Nat),
    (∀ i, P.Keeping cs c (Interp.createCommand i name (Bridge.registeredCommand handle name))) →
      P.Keeping cs c (Bridge.register handle name function)
  traceVar : ∀ (handle : Nat) (name : String) (key : Option String) (flags : Flags)
    (function : Nat), P.Keeping cs c (Bridge.traceVar handle name key flags function)
  untraceVar : ∀ (handle : Nat) (name : String) (key : Option String) (flags : Flags)
    (function : Nat), P.Keeping cs c (Bridge.untraceVar handle name key flags function)
  forget : ∀ (j handle : Nat) (key : String), c = .deleted j (.forget handle key) →
    P.Keeping cs c (Bridge.forgetFunction handle key)
  removeTrace : ∀ (j : Nat) (step : InterpreterStep), c = .interpreterStep j step →
    ∀ (name : String) (key : Option String) (flags : Flags) (client : String),
      P.Keeping cs c (Interp.removeTrace j name key flags client)

theorem Served.watchful (h : P.Served cs c) : Program.Watchful (P.Keeping cs c) where
  toSequential := sequential
  overflow _ _ _ _ _ := .overflow _
  update := keeping_steady
  request _ := keeping_request _
  runDelete _ := keeping_runDelete
  dispose _ := keeping_dispose
  fireTraces _ r _ _ := keeping_fireTraces r _
  store _ := keeping_store
  unset _ := keeping_unset
  register := h.register
  traceVar := h.traceVar
  untraceVar := h.untraceVar

/-- A trace that brings it back installs itself again. -/
theorem abides_fire {r : VarRef} {t : Trace} {flags : Flags} {later : List Firing} {s : Bool}
    {w : World} (hs : P.monitor.calls cs (.fire P.interp t r flags later) s w)
    (hbrings : P.Brings r t) (hre : t.reinstalls flags = true) :
    (Scenario.fireTrace P.interp t r flags).Abides P.contract cs (.fire P.interp t r flags later)
      (fun _ s' w' => P.contract.Post cs (.fire P.interp t r flags later) s w s' w') s w := by
  rw [Scenario.fireTrace_of_reinstalls hre]
  refine Program.Abides.bind (Program.abides_reading_iff.2 ?_)
  split
  · rename_i vs hvs
    have hsame := fun {β : Type} (g : Interpreter → β) hg => World.apply_withInterpreter
      (w := w) (i := P.interp) (f := fun s => { s with vars := vs }) g hg P.interp
    refine Program.Abides.bind fun s' _ => ⟨trivial, hsame (·.active) rfl,
      (hsame (·.disposed) rfl).trans, fun _ _ => P.brought hbrings ?_⟩
    rw [World.Installed, World.interpreter_withInterpreter_self]
    dsimp only
    rw [Variables.tracesOn_addTrace hvs, if_pos rfl]
    exact List.mem_cons_self
  · rename_i e he
    have hstate : s = false := by
      refine Bool.eq_false_iff.2 fun hstate => ?_
      subst hstate
      obtain ⟨vs, hvs⟩ := P.installs hs hbrings ⟨flags, later, rfl, hre⟩
      exact nomatch he.symm.trans hvs
    refine (keeping_fail _ _ _ True (fun _ => trivial) s w
      ⟨rfl, id, fun _ hs' => nomatch hstate.symm.trans hs'⟩).imp fun status s' w' h => ?_
    have hpost : P.contract.Post cs (.fire P.interp t r flags later) s w s' w' :=
      ⟨h.active, h.disposed, fun _ => h.fit trivial⟩
    cases status <;> exact hpost

/-- Every call leaves it as it was or brings it back. -/
theorem holds (hserved : ∀ cs c s w, P.monitor.calls cs c s w → P.Served cs c) :
    P.contract.Holds Scenario.handle := by
  intro cs c s w hs hpre
  by_cases hreturns : P.Returns c
  · obtain ⟨r, t, hbrings, flags, later, rfl, hre⟩ := hreturns
    exact abides_fire hs hbrings hre
  · have hc := hserved cs c s w hs
    have hcall : P.Keeping cs c (Scenario.handle c) := by
      refine hc.watchful.handle (fun j step hstep => ?_) (fun j t' r' flags _ _ => ?_) hc.forget
      · exact hc.watchful.runStep (fun _ => keeping_addTrace) (hc.removeTrace j step hstep)
      · exact hc.watchful.conduct.fireTrace j t' r' flags (keeping_addTrace _ _ t')
    refine (hcall (w.interpreter P.interp).active ((w.interpreter P.interp).disposed = true)
      (P.Fit s w ∨ Call.Idle P.interp (c :: cs)) .inr s w
      ⟨rfl, id, fun hfit => hfit.elim id hpre⟩).imp fun _ s' w' h => ⟨h.active, h.disposed, ?_⟩
    rintro (hfit | hidle | hreturns')
    · exact h.fit (.inl hfit)
    · exact h.fit (.inr hidle)
    · exact absurd hreturns' hreturns

theorem between (P : Restoration) : P.contract.Between P.Fit where
  pre _ _ _ _ h _ := h
  post _ _ _ _ _ h hpost := hpost.2.2 (.inl h)
  aside _ _ _ h ha hs := There.steady (h hs) ha.steady

end Restoration

/-- **What traces bring back is there** whenever a call is made or has replied and nothing
is in progress in the interpreter. -/
theorem Machine.Watched.there {P : Restoration}
    (hserved : ∀ cs c s w, P.monitor.calls cs c s w → P.Served cs c) {s₀ : Bool} {w₀ : World}
    (h₀ : P.Fit s₀ w₀) {root : Call} {m : Machine root} {s : Bool}
    (hm : m.Watched P.monitor Scenario.handle s₀ w₀ s) :
    (∀ d k, m.code = .call d k → P.monitor.calls m.stack.calls d s m.world →
        Call.Idle P.interp (d :: m.stack.calls) → P.Fit s m.world) ∧
      ∀ a, m.code = .done a → Call.Idle P.interp m.stack.calls → P.Fit s m.world := by
  obtain ⟨hcall, hdone, -⟩ := hm.boundary (Restoration.holds hserved) P.between h₀
  refine ⟨hcall, fun a ha hidle => ?_⟩
  obtain ⟨s₁, w₁, -, -, hfit⟩ := hdone a ha
  rw [m.stack.calls_eq] at hidle
  exact hfit (.inr (.inl hidle))

end CommandBridge
