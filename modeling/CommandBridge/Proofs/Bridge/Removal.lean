/-
# Traces that are removed

A trace that is removed is gone at once: it is not on its variable or element any more, it
does not come back, and no access and no unset fires it (`Machine.Watched.withdrawn`).
What happens meanwhile on the variable is the other traces' doing, and these may be
registered, removed, taken away and installed again at any time.

This is so as long as no loop in progress has still to fire the trace when it is removed.
An access fires the traces that were there when it began, and an unset those that it has
taken away; neither looks again whether they are still wanted
(`Withdrawal.fired_after_removal`).  A trace that has had its turn may be removed at any
time, also by itself (`Machine.Watched.withdrawn_by_itself`).  And a removal takes one trace
away: a second one that is meant by the same flags stays.

The monitor is in the state `true` from the removal on, as long as nobody registers the
trace again.  What loops have still to fire is seen from the calls in progress
(`Withdrawal.Busy`): where the state becomes `true` these are other traces
(`Withdrawal.contract`), and so they are in the rest of each loop (`Withdrawal.fires`).
-/

import CommandBridge.Proofs.Bridge.Persistence

namespace CommandBridge

namespace Variables

/-- If one is meant at most, none of those that are left is. -/
theorem not_of_mem_eraseP {α : Type} {p : α → Bool} {as : List α} (h : as.countP p ≤ 1) {a : α}
    (ha : a ∈ as.eraseP p) : p a = false := by
  refine Bool.eq_false_iff.2 fun hpa => ?_
  obtain ⟨b, before, behind, hbefore, hb, rfl, herase⟩ :=
    List.exists_of_eraseP (List.mem_of_mem_eraseP ha) hpa
  rw [List.countP_append, List.countP_cons_of_pos hb] at h
  rw [herase] at ha
  rcases List.mem_append.1 ha with ha | ha
  · exact hbefore a ha hpa
  · have := List.countP_pos_iff.2 ⟨a, ha, hpa⟩
    omega

end Variables

/-- The call fires a trace of the variable or of an element of it. -/
def Call.Fires (c : Call) (i : Nat) (name : String) : Prop :=
  ∃ t r flags later, c = .fire i t r flags later ∧ r.name = name

/-- What is removed from a variable or element of an interpreter, and the registrations
that there are besides on the variable and its elements. -/
structure Withdrawal where
  interp : Nat
  place : VarRef
  flags : Flags
  client : String
  others : Option String → Trace → Prop

namespace Withdrawal

/-- The traces on the variable and its elements are other ones. -/
def Clear (x : Withdrawal) (w : World) : Prop :=
  ∀ key, ∀ t ∈ (w.interpreter x.interp).vars.tracesOn ⟨x.place.name, key⟩, x.others key t

/-- If a trace is fired on the variable or an element of it, it is another one, unless it is
told that the interpreter is being taken down, and so is one that is told to install itself
again. -/
structure Other (x : Withdrawal) (y : Firing) : Prop where
  fired : y.ref.name = x.place.name → y.flags.contains .interpDestroyed = false →
    x.others none y.trace ∨ x.others y.ref.key y.trace
  told : y.ref.name = x.place.name → y.trace.reinstalls y.flags = true → x.others y.ref.key y.trace

/-- A loop in progress has still to fire a trace that is no other one. -/
def Busy (x : Withdrawal) (cs : List Call) : Prop :=
  ∃ y, Call.Pending cs x.interp y ∧ ¬x.Other y

/-- The one trace that is meant is removed. -/
structure Removes (x : Withdrawal) (w w' : World) : Prop where
  removed : w' = w.untraced x.interp x.place x.flags x.client
  there : ∃ t ∈ (w.interpreter x.interp).vars.tracesOn x.place,
    Variables.isTraceOf x.client x.flags t = true
  once : ((w.interpreter x.interp).vars.tracesOn x.place).countP
    (Variables.isTraceOf x.client x.flags) ≤ 1
  rest : ∀ key, ∀ t ∈ (w.interpreter x.interp).vars.tracesOn ⟨x.place.name, key⟩,
    x.others key t ∨ (key = x.place.key ∧ Variables.isTraceOf x.client x.flags t = true)

/-- Nothing comes to be on the variable or its elements but other traces and those that are
told to install themselves again. -/
def Stays (x : Withdrawal) (c : Call) (w w' : World) : Prop :=
  ∀ key, ∀ t ∈ (w'.interpreter x.interp).vars.tracesOn ⟨x.place.name, key⟩,
    t ∈ (w.interpreter x.interp).vars.tracesOn ⟨x.place.name, key⟩ ∨ x.others key t ∨
      c.Reinstates x.interp ⟨x.place.name, key⟩ t

/-- The runs in which a trace is removed while no loop in progress has still to fire it, and
is not registered again. -/
def monitor (x : Withdrawal) : Monitor Bool where
  calls cs c _ _ := cs = [] → ¬c.Fires x.interp x.place.name
  changes cs c s w s' w' := s' = true →
    (s = true ∧ x.Stays c w w') ∨ (¬x.Busy (c :: cs) ∧ x.Removes w w')

/-- If the call fires a trace of the variable or of an element, then another one. -/
def Sound (x : Withdrawal) (c : Call) : Prop :=
  ∀ t r flags later, c = .fire x.interp t r flags later → x.Other ⟨t, r, flags⟩

/-- After the removal the traces on the variable are other ones, and so are those that are
fired.  In a call that is made while a loop has still to fire the trace it is not removed. -/
def contract (x : Withdrawal) : x.monitor.Contract where
  Pre _ c s w := s = true → x.Clear w ∧ x.Sound c
  Post cs c s _ s' w' := (s' = true → x.Clear w') ∧ (x.Busy (c :: cs) → s' = true → s = true)
  Change s w s' w' := (s = true → x.Clear w) → s' = true → x.Clear w'

variable {x : Withdrawal} {w w' : World} {s s' : Bool} {cs : List Call} {c d : Call} {j : Nat}
  {G F F' : Prop} {α : Type}

theorem other_of_name_ne {y : Firing} (hy : y.ref.name ≠ x.place.name) : x.Other y :=
  ⟨fun h => absurd h hy, fun h => absurd h hy⟩

theorem sound_of_not_fires (hd : ¬d.Fires x.interp x.place.name) : x.Sound d :=
  fun t r flags later h => other_of_name_ne fun hr => hd ⟨t, r, flags, later, h, hr⟩

/-! ### The removal -/

/-- After the removal of the one trace that is meant the others are left. -/
theorem Removes.clear (h : x.Removes w w') : x.Clear w' := by
  intro key t ht
  rw [h.removed, World.untraced, World.interpreter_withInterpreter_self] at ht
  dsimp only at ht
  rw [Variables.tracesOn_removeTrace_eq] at ht
  split at ht
  · rename_i hplace
    refine (h.rest key t (hplace ▸ List.mem_of_mem_eraseP ht)).resolve_right fun ⟨_, hmeant⟩ => ?_
    exact nomatch (Variables.not_of_mem_eraseP h.once ht).symm.trans hmeant
  · rename_i hplace
    refine (h.rest key t ht).resolve_right fun ⟨hkey, _⟩ => hplace ?_
    rw [hkey]

/-- Something is removed. -/
theorem Removes.vars_ne (h : x.Removes w w') :
    (w'.interpreter x.interp).vars ≠ (w.interpreter x.interp).vars := by
  intro hvars
  have hsame := congrArg (·.tracesOn x.place) hvars
  rw [h.removed, World.untraced, World.interpreter_withInterpreter_self,
    Variables.tracesOn_removeTrace_eq, if_pos rfl] at hsame
  obtain ⟨t, ht, hmeant⟩ := h.there
  have hlength := List.length_eraseP_of_mem ht hmeant
  rw [hsame] at hlength
  have := List.length_pos_of_mem ht
  omega

/-- A removal is no unset. -/
theorem Removes.holds_eq (h : x.Removes w w') (r : VarRef) :
    (w'.interpreter x.interp).vars.holds r = (w.interpreter x.interp).vars.holds r := by
  rw [h.removed, World.untraced, World.interpreter_withInterpreter_self]
  exact Variables.holds_removeTrace ..

/-! ### Programs -/

/-- What is told to install itself again by the call is another trace. -/
def Restores (x : Withdrawal) (c : Call) : Prop :=
  ∀ key t, c.Reinstates x.interp ⟨x.place.name, key⟩ t → x.others key t

/-- In the state `true` what comes to be on the variable are other traces. -/
theorem clear_of_changes (hclear : s = true → x.Clear w) (hc : s = true → x.Restores c)
    (hs : x.monitor.changes cs c s w s' w') (hs' : s' = true) : x.Clear w' := by
  rcases hs hs' with ⟨hstate, hstays⟩ | ⟨-, hremoves⟩
  · intro key t ht
    rcases hstays key t ht with ht | ht | ht
    · exact hclear hstate key t ht
    · exact ht
    · exact hc hstate key t ht
  · exact hremoves.clear

/-- In the state `true` the traces on the variable are other ones, and as long as a loop in
progress has still to fire the trace the state is `true` only under `G`; besides it is so
only under `F`. -/
structure Holds (x : Withdrawal) (cs : List Call) (c : Call) (G F : Prop) (s : Bool)
    (w : World) : Prop where
  clear : s = true → x.Clear w
  since : x.Busy (c :: cs) → s = true → G
  only : s = true → F

/-- Programs of the call `c` that lead from one such state of affairs to another. -/
abbrev Leads (x : Withdrawal) (cs : List Call) (c : Call) (G F F' : Prop) (p : Program α) : Prop :=
  p.Takes x.contract cs c (x.Holds cs c G F) (x.Holds cs c G F')

/-- Programs of the call `c` after which things are as before. -/
abbrev Keeping (x : Withdrawal) (cs : List Call) (c : Call) : Program.Property :=
  fun _ p => ∀ G : Prop, x.Leads cs c G True True p

theorem sequential : Program.Sequential (x.Keeping cs c) where
  pure a _ := .pure a
  bind hp hf G := .bind (hp G) fun a => hf a G
  get hk G := .get fun w => hk w G

theorem Holds.change (h : x.Holds cs c G F s w) (hc : x.Restores c)
    (hs : x.monitor.changes cs c s w s' w') (hF : s' = true → F') : x.Holds cs c G F' s' w' := by
  refine ⟨clear_of_changes h.clear (fun _ => hc) hs, fun hbusy hs' => ?_, hF⟩
  rcases hs hs' with ⟨hs, -⟩ | ⟨hquiet, -⟩
  · exact h.since hbusy hs
  · exact absurd hbusy hquiet

theorem change_of_changes (hc : x.Restores c) (hs : x.monitor.changes cs c s w s' w') :
    x.contract.Change s w s' w' :=
  fun hclear => clear_of_changes hclear (fun _ => hc) hs

/-- The monitor has seen to it that nothing else is changed. -/
theorem keeping_update (hc : x.Restores c) (f : World → α × World) :
    x.Keeping cs c (Program.update f) :=
  fun _ => .update fun _ _ _ h hs => ⟨change_of_changes hc hs, h.change hc hs fun _ => trivial⟩

theorem keeping_modify (hc : x.Restores c) (f : World → World) :
    x.Keeping cs c (Program.modify f) :=
  keeping_update hc fun w => ((), f w)

/-- While the variables stay as they are nothing is removed. -/
theorem leads_same (hc : x.Restores c) {f : World → α × World}
    (hf : ∀ w, ((f w).2.interpreter x.interp).vars = (w.interpreter x.interp).vars) :
    x.Leads cs c G F F (Program.update f) := by
  refine .update fun s w s' h hs => ⟨change_of_changes hc hs, h.change hc hs fun hs' => ?_⟩
  rcases hs hs' with ⟨hs, -⟩ | ⟨-, hremoves⟩
  · exact h.only hs
  · exact absurd (hf w) hremoves.vars_ne

/-- A call that fires another trace, if any.  What its loop has still to fire are other
traces, if the trace was removed in the call. -/
theorem leads_request (hd : F → x.Sound d)
    (hF : F ∨ (∀ y ∈ d.remaining x.interp, x.Other y) → F') :
    x.Leads cs c G F F' (Program.request d) := by
  refine .request fun s w h _ => ⟨fun hs => ⟨h.clear hs, hd (h.only hs)⟩, fun s' w' hpost => ?_⟩
  have hback : x.Busy (d :: c :: cs) → s' = true → s = true := hpost.2
  refine ⟨hpost.1, fun hbusy hs' => ?_, fun hs' => hF ?_⟩
  · exact h.since hbusy (hback (hbusy.imp fun _ hy => ⟨hy.1.cons d, hy.2⟩) hs')
  · refine Classical.or_iff_not_imp_right.2 fun hrest => ?_
    obtain ⟨y, hy⟩ := Classical.not_forall.1 hrest
    obtain ⟨hmem, hy⟩ := Classical.not_imp.1 hy
    exact h.only (hback ⟨y, ⟨d, List.mem_cons_self, hmem⟩, hy⟩ hs')

theorem keeping_request (hd : x.Sound d) : x.Keeping cs c (Program.request d) :=
  fun _ => leads_request (fun _ => hd) fun _ => trivial

/-! ### Loops -/

/-- What is left to fire in the interpreter are other traces. -/
def Spares (x : Withdrawal) (j : Nat) (xs : List Firing) : Prop :=
  j = x.interp → ∀ y ∈ xs, x.Other y

/-- The traces that a loop has still to fire are other ones in the state `true`. -/
theorem fires (hc : x.Restores c) :
    Program.Fires x.contract cs c j fun xs => x.Holds cs c G (x.Spares j xs) where
  dropped xs _ _ _ h := ⟨h.clear, h.since, fun hs hj y hy =>
    h.only hs hj y (List.mem_append_right xs hy)⟩
  fire y later := by
    refine leads_request (fun hF t r flags later' heq => ?_) fun hF hj => ?_
    · obtain ⟨hj, rfl, rfl, rfl, -⟩ := Call.fire.inj heq
      exact hF hj y List.mem_cons_self
    · rcases hF with hF | hrest
      · exact fun z hz => hF hj z (List.mem_cons_of_mem y hz)
      · rwa [Call.remaining, if_pos hj] at hrest
  active f _ := leads_same (f := fun w => ((), w.withInterpreter j
    fun s => { s with active := f s.active })) hc fun _ =>
      World.apply_withInterpreter (·.vars) rfl _

theorem Holds.spare (h : x.Holds cs c G F s w) : x.Holds cs c G True s w :=
  ⟨h.clear, h.since, fun _ => trivial⟩

/-- An access fires the traces that were there when it began: other ones, if the trace had
been removed before. -/
theorem keeping_fireTraces (hc : x.Restores c) (r : VarRef) {op : Flags} (hop : op.IsAccess)
    (flags : Flags) : x.Keeping cs c (Interp.fireTraces j r op flags) := by
  refine fun G s w h => (fires hc).fireTraces h (fun _ => ⟨h.clear, h.since, ?_⟩)
    fun _ _ h => h.spare
  rintro hs rfl y hy
  obtain ⟨t, ht, rfl⟩ := List.mem_map.1 hy
  refine ⟨fun hname _ => ?_, fun _ hre => ?_⟩
  · refine (Variables.mem_tracesFor ht).imp (fun ht => ?_) fun ht => ?_
    · exact h.clear hs none t (hname ▸ ht)
    · exact h.clear hs r.key t (hname ▸ ht)
  · exact nomatch (t.not_reinstalls_of_isAccess hop flags).symm.trans hre

/-- What an unset has taken away are other traces, if the trace had been removed before. -/
theorem other_of_detached {r : VarRef} {vs : Variables} {groups : List UnsetGroup}
    (hdetach : (w.interpreter x.interp).vars.detach r = .ok (groups, vs)) (hclear : x.Clear w)
    (flags : Flags) : ∀ y ∈ Interp.groupFirings r.name flags.scope groups, x.Other y := by
  intro y hy
  obtain ⟨g, hg, hy⟩ := List.mem_flatMap.1 hy
  obtain ⟨t, ht, rfl⟩ := List.mem_map.1 hy
  have hon := (List.mem_filter.1 ht).1
  rw [Variables.traces_of_mem_groups hdetach hg, Variables.groupPlace] at hon
  refine ⟨fun hname _ => ?_, fun hname hre => ?_⟩ <;> dsimp only at hname <;> rw [hname] at hon
  · have hother := hclear _ t hon
    split at hother
    · exact .inr hother
    · exact .inl hother
  · rw [if_pos (Tracing.destroyed_of_reinstalls hre)] at hon
    exact hclear _ t hon

/-- An unset is no removal, so the trace had been removed before. -/
theorem Holds.clear_of_detach (h : x.Holds cs c G F s w) {r : VarRef} {vs : Variables}
    {groups : List UnsetGroup} (hdetach : (w.interpreter x.interp).vars.detach r = .ok (groups, vs))
    (hs : x.monitor.changes cs c s w s'
      (w.withInterpreter x.interp fun s => { s with vars := vs })) (hs' : s' = true) :
    x.Clear w := by
  rcases hs hs' with ⟨hstate, -⟩ | ⟨-, hremoves⟩
  · exact h.clear hstate
  · have hholds := hremoves.holds_eq r
    rw [World.interpreter_withInterpreter_self] at hholds
    obtain ⟨hbefore, hafter⟩ := Variables.holds_detach hdetach
    exact nomatch hafter.symm.trans (hholds.trans hbefore)

/-- An unset fires the traces that it has taken away. -/
theorem keeping_unset (hc : x.Restores c) (name : String) (key : Option String) (flags : Flags) :
    x.Keeping cs c (Interp.unset j name key flags) := by
  intro G s w h
  refine Program.abides_update_iff.2 fun s' hs => ⟨change_of_changes hc hs, ?_⟩
  have hw' := h.change hc hs fun _ => trivial
  cases hdetach : (w.interpreter j).vars.detach (VarRef.resolve name key) with
  | error e =>
    rw [hdetach] at hw'
    have hreport : x.Keeping cs c (Interp.reportAccess j flags "unset"
        (VarRef.resolve name key) e.message) :=
      sequential.reportAccess (fun _ => keeping_modify hc _) _ _ _ _
    exact sequential.bind hreport (fun _ => sequential.pure _) G _ _ hw'
  | ok result =>
    obtain ⟨groups, vs⟩ := result
    rw [hdetach] at hs hw'
    refine Program.Abides.bind (((fires hc).fireUnset _ _ groups _ _
      ⟨hw'.clear, hw'.since, ?_⟩).imp fun _ _ _ h => h.spare)
    rintro hs' rfl
    exact other_of_detached hdetach (h.clear_of_detach hdetach hs hs') flags

theorem keeping_runDelete (action : Option DeleteAction) :
    x.Keeping cs c (Interp.runDelete j action) := by
  cases action with
  | none => exact sequential.pure ()
  | some a => exact keeping_request fun _ _ _ _ h => nomatch h

/-- Traces that are told of a disposal neither call their function nor come back. -/
theorem keeping_takeDown (hc : x.Restores c) : x.Keeping cs c (Interp.takeDown j) := by
  refine sequential.bind (keeping_update hc _) fun _ => sequential.bind
    (sequential.each (fun _ => keeping_runDelete _) _) fun _ =>
      sequential.bind (keeping_update hc _) fun _ =>
        sequential.bind (sequential.each (fun p G s w h => ?_) _) fun _ => keeping_modify hc _
  refine ((fires hc).fireUnset _ _ _ s w ⟨h.clear, h.since, fun _ _ y hy => ?_⟩).imp
    fun _ _ _ h => h.spare
  obtain ⟨g, -, hy⟩ := List.mem_flatMap.1 hy
  obtain ⟨t, -, rfl⟩ := List.mem_map.1 hy
  refine ⟨fun _ hflags => ?_, fun _ hre => absurd hre (Tracing.not_reinstalls_destroyed t g)⟩
  exact nomatch hflags.symm.trans
    (Flags.contains_union_left (Flags.contains_union_right (by decide) _) _)

theorem keeping_dispose (hc : x.Restores c) : x.Keeping cs c (Interp.dispose j) := by
  rw [Interp.dispose_eq]
  refine sequential.get fun w => ?_
  split
  · exact sequential.pure ()
  · exact sequential.bind (keeping_modify hc _) fun _ => keeping_takeDown hc

theorem keeping_addTrace (hc : x.Restores c) (name : String) (key : Option String) (t : Trace) :
    x.Keeping cs c (Interp.addTrace j name key t) := by
  refine sequential.bind (sequential.interpreter j) fun s => ?_
  split
  · exact sequential.bind (keeping_modify hc _) fun _ => sequential.pure _
  · exact sequential.bind (keeping_modify hc _) fun _ => sequential.pure _

theorem watchful (hc : x.Restores c) : Program.Watchful (x.Keeping cs c) where
  toSequential := sequential
  overflow _ _ := .overflow _
  update _ := keeping_update hc _
  request hd := keeping_request fun _ _ _ _ h => by
    subst h
    exact hd.elim
  runDelete _ := keeping_runDelete
  dispose _ := keeping_dispose hc
  fireTraces _ r _ hop := keeping_fireTraces hc r hop
  store _ _ _ _ := keeping_update hc _
  unset _ := keeping_unset hc
  register _ _ _ hcreate := sequential.register hcreate (keeping_modify hc _)
  traceVar _ name key _ _ := sequential.traceVar (fun _ => keeping_addTrace hc name key _)
    (keeping_modify hc _)
  untraceVar _ _ _ _ _ := sequential.untraceVar (fun _ _ _ => keeping_update hc _)
    (keeping_modify hc _)

/-- A trace that installs itself again is another one, if the trace had been removed before;
nothing is removed then. -/
theorem abides_fire {t : Trace} {r : VarRef} {flags : Flags} {later : List Firing}
    (hre : t.reinstalls flags = true)
    (hpre : x.contract.Pre cs (.fire x.interp t r flags later) s w) :
    (Scenario.fireTrace x.interp t r flags).Abides x.contract cs (.fire x.interp t r flags later)
      (fun _ s' w' => x.contract.Post cs (.fire x.interp t r flags later) s w s' w') s w := by
  have hc : s = true → x.Restores (.fire x.interp t r flags later) := by
    rintro hs key t' ⟨flags', later', heq, hre'⟩
    obtain ⟨-, rfl, rfl, rfl, -⟩ := Call.fire.inj heq
    exact ((hpre hs).2 _ _ _ _ rfl).told rfl hre'
  have hchange : ∀ {s' w'}, x.monitor.changes cs (.fire x.interp t r flags later) s w s' w' →
      x.contract.Change s w s' w' ∧
        x.contract.Post cs (.fire x.interp t r flags later) s w s' w' := by
    intro s' w' hs
    refine ⟨fun hclear => clear_of_changes hclear hc hs,
      clear_of_changes (fun hs => (hpre hs).1) hc hs, fun hbusy hs' => ?_⟩
    exact (hs hs').elim And.left fun hremoves => absurd hbusy hremoves.1
  rw [Scenario.fireTrace_of_reinstalls hre]
  refine Program.Abides.bind (Program.abides_reading_iff.2 ?_)
  split
  · exact Program.Abides.bind fun s' hs => hchange hs
  · exact Program.Abides.bind fun s' hs => hchange hs

/-- Every call fires other traces only. -/
theorem holds (x : Withdrawal) : x.contract.Holds Scenario.handle := by
  intro cs c s w _ hpre
  by_cases hre : ∃ r t, c.Reinstates x.interp r t
  · obtain ⟨r, t, flags, later, rfl, hre⟩ := hre
    exact abides_fire hre hpre
  · have hc : x.Restores c := fun _ t ht => absurd ⟨_, t, ht⟩ hre
    have h : Program.Watchful (x.Keeping cs c) := watchful hc
    have hcall : x.Keeping cs c (Scenario.handle c) := by
      refine h.handle (fun j step _ => ?_) (fun j t r flags _ _ => ?_) fun j handle key _ => ?_
      · exact h.runStep (fun _ => keeping_addTrace hc) fun _ _ _ _ => keeping_update hc _
      · exact h.conduct.fireTrace j t r flags (keeping_addTrace hc _ _ t)
      · exact keeping_modify hc _
    exact (hcall (s = true) s w
      ⟨fun hs => (hpre hs).1, fun _ hs => hs, fun _ => trivial⟩).imp
        fun _ _ _ h => ⟨h.clear, h.since⟩

theorem between (x : Withdrawal) : x.contract.Between fun s w => s = true → x.Clear w where
  pre _ _ _ hc h hs := ⟨h hs, sound_of_not_fires (hc rfl)⟩
  post _ _ _ _ _ _ hpost := hpost.1
  aside _ _ _ h ha hs key t ht := by
    rw [ha.steady.vars] at ht
    exact h hs key t ht

end Withdrawal

namespace Bridge

/-- What is removed when a function is to trace a variable or element no longer. -/
def withdrawal (i : Nat) (name : String) (key : Option String) (flags : Flags) (function : Nat)
    (others : Option String → Trace → Prop) : Withdrawal where
  interp := i
  place := VarRef.resolve name key
  flags := traceFlags flags
  client := clientName function
  others := others

/-- The world after a function has ceased to trace a variable or element: with its last
trace the function goes, too. -/
def ceased (w : World) (h i : Nat) (r : VarRef) (flags : Flags) (function : Nat) : World :=
  let v := w.untraced i r (traceFlags flags) (clientName function)
  if (v.interpreter i).vars.clientCount (clientName function) = 0 then
    v.withHandle h fun s => { s with functions := s.functions.erase (clientName function) }
  else v

theorem interpreter_ceased (w : World) (h i : Nat) (r : VarRef) (flags : Flags) (f j : Nat) :
    (ceased w h i r flags f).interpreter j =
      (w.untraced i r (traceFlags flags) (clientName f)).interpreter j := by
  unfold ceased
  dsimp only
  split <;> rfl

/-- Removing a trace always comes to an end. -/
theorem runs_untraceVar_iff {handler : Machine.Handler} {w w' : World} {h i f : Nat}
    {name : String} {key : Option String} {flags : Flags} {result : Except BridgeError Unit}
    (hi : live? w h = some i) :
    Program.Runs handler (untraceVar h name key flags f) w result w' ↔
      result = .ok () ∧ w' = ceased w h i (VarRef.resolve name key) flags f := by
  refine Program.runs_get_iff.trans ?_
  dsimp only [Bind.bind, Program.bind]
  rw [hi]
  refine Program.runs_get_iff.trans (Program.runs_set_iff.trans (Program.runs_get_iff.trans ?_))
  dsimp only [Program.bind]
  split
  · rename_i hnone
    refine Program.runs_get_iff.trans (Program.runs_set_iff.trans (Program.runs_done_iff.trans ?_))
    rw [show ceased w h i (VarRef.resolve name key) flags f = _ from if_pos hnone]
    rfl
  · rename_i hsome
    refine Program.runs_done_iff.trans ?_
    rw [show ceased w h i (VarRef.resolve name key) flags f = _ from if_neg hsome]
    rfl

end Bridge

/-- **A removed trace is gone.**  Whatever calls the host makes one after the other and
however calls lead into each other: from the moment on when the one trace that is meant is
removed from a variable or element, while no loop in progress has still to fire it, and as
long as only other traces are registered there, all traces on the variable and its elements
are other ones, and the traces that are fired when it or an element is accessed or unset
are other ones, too.  Removing a trace comes to an end everywhere. -/
theorem Machine.Watched.withdrawn {i f : Nat} {name : String} {key : Option String}
    {flags : Flags} {others : Option String → Trace → Prop} {w₀ : World} {root : Call}
    {m : Machine root}
    (hm : m.Watched (Bridge.withdrawal i name key flags f others).monitor Scenario.handle
      false w₀ true) :
    (∀ κ, ∀ t ∈ (m.world.interpreter i).vars.tracesOn ⟨(VarRef.resolve name key).name, κ⟩,
        others κ t) ∧
      (∀ t r fl later k, m.code = .call (.fire i t r fl later) k →
        r.name = (VarRef.resolve name key).name →
        fl.contains .interpDestroyed = false → others none t ∨ others r.key t) ∧
      ∀ h, Bridge.live? m.world h = some i → ∃ w',
        (∀ result v, Program.Runs Scenario.handle (Bridge.untraceVar h name key flags f) m.world
          result v ↔ result = .ok () ∧ v = w') ∧
        ∀ j, w'.interpreter j = (m.world.untraced i (VarRef.resolve name key)
          (Bridge.traceFlags flags) (Bridge.clientName f)).interpreter j := by
  have h₀ : false = true →
      (Bridge.withdrawal i name key flags f others).Clear w₀ := nofun
  have hclear := hm.invariant (Withdrawal.holds _) (Withdrawal.between _)
    (fun _ _ _ _ h hchange => hchange h) h₀
  obtain ⟨hcall, -, -⟩ := hm.boundary (Withdrawal.holds _) (Withdrawal.between _) h₀
  refine ⟨hclear rfl, fun t r fl later k hcode hname hflags => ?_, fun h hi =>
    ⟨Bridge.ceased m.world h i (VarRef.resolve name key) flags f,
      fun _ _ => Bridge.runs_untraceVar_iff hi, Bridge.interpreter_ceased _ _ _ _ _ _⟩⟩
  have hcalls : m.stack.calls ≠ [] := by
    rw [m.stack.calls_eq]
    exact nofun
  exact ((hcall _ k hcode (fun hnil => absurd hnil hcalls) rfl).2 t r fl later rfl).fired hname
    hflags

/-! ### A trace that is removed -/

namespace Withdrawal

/-- Before the removal the monitor has nothing to say. -/
theorem leadsWith_false {x : Withdrawal} {root : Call} {handler : Machine.Handler}
    {m m' : Machine root} (hstep : m.step handler = .inl m') :
    Machine.LeadsWith x.monitor handler (false, m) (false, m') :=
  Machine.leadsWith_self hstep (fun _ _ _ => nofun) fun _ _ _ => nofun

/-- Whether it can be seen that the monitor may go on saying that the trace is removed. -/
def passes (i : Nat) (name : String) (p : Trace → Bool) {root : Call} (m : Machine root) : Bool :=
  match m.code with
  | .set w' _ => (((w'.interpreter i).vars[name]?.map Variables.allTraces).getD []).all p
  | _ => true

theorem leadsWith_of_passes {x : Withdrawal} {p : Trace → Bool}
    (hp : ∀ key t, p t = true → x.others key t) {root : Call} {handler : Machine.Handler}
    (m m' : Machine root) (h : passes x.interp x.place.name p m = true)
    (hstep : m.step handler = .inl m') :
    Machine.LeadsWith x.monitor handler (true, m) (true, m') := by
  refine Machine.leadsWith_self hstep (fun w' q hcode => ?_) fun _ _ _ => nofun
  rw [passes, hcode] at h
  exact fun _ => .inl ⟨rfl, fun key t ht =>
    .inr (.inl (hp key t (List.all_eq_true.1 h t (Variables.mem_getD_allTraces ht))))⟩

end Withdrawal

/-- Whether a machine is about to fire a trace on the variable or element and tell it
something that passes the check. -/
def Machine.firesOn (i : Nat) (r : VarRef) (p : Trace → Flags → Bool) {root : Call}
    (m : Machine root) : Bool :=
  match m.code with
  | .call (.fire j t r' flags _) _ => decide (j = i ∧ r' = r) && p t flags
  | _ => false

theorem Machine.code_of_firesOn {i : Nat} {r : VarRef} {p : Trace → Flags → Bool} {root : Call}
    {m : Machine root} (h : m.firesOn i r p = true) :
    ∃ t flags later k, m.code = .call (.fire i t r flags later) k ∧ p t flags = true := by
  unfold firesOn at h
  split at h
  · rename_i t _ flags later k hcode
    rw [Bool.and_eq_true, decide_eq_true_iff] at h
    obtain ⟨⟨rfl, rfl⟩, hp⟩ := h
    exact ⟨t, flags, later, k, hcode, hp⟩
  · cases h

/-- The removal that a call of the host has replied to. -/
def Machine.untraced? {root : Call} (m : Machine root) :
    Option (String × String × Option String × Flags × String) :=
  match m.code, m.current with
  | .done _, .bridgeStep ⟨.untraceVar on name key flags function, _⟩ =>
    some (on, name, key, flags, function)
  | _, _ => none

/-- A world with two traces on a variable, of which the first removes itself. -/
def World.retraced : World :=
  .staged [.scripted "f" (.ofActions · [
    .step { op := .untraceVar "m" "a" none .traceReads "f" }]), .silent "g"]
    [(.traceReads, 0), (.traceReads, 1)]

theorem World.tracesOn_retraced (key : Option String) :
    (World.retraced.interpreter 0).vars.tracesOn ⟨"a", key⟩ =
      if key = none then [Bridge.traceOf 0 .traceReads 0, Bridge.traceOf 0 .traceReads 1]
      else [] := by
  have hvars : (World.retraced.interpreter 0).vars = (∅ : Variables).insert "a" {
      content := .scalar (.text "v")
      traces := [Bridge.traceOf 0 .traceReads 0, Bridge.traceOf 0 .traceReads 1] } := rfl
  rw [hvars, Variables.tracesOn, Std.ExtTreeMap.getElem?_insert_self]
  cases key <;> rfl

/-- What is to be removed: the first of the two traces. -/
abbrev Withdrawal.retracing : Withdrawal :=
  Bridge.withdrawal 0 "a" none .traceReads 0 fun _ t => t = Bridge.traceOf 0 .traceReads 1

theorem Withdrawal.place_retracing : retracing.place = ⟨"a", none⟩ := by decide +kernel

/-- As long as the variable is as it was at first, the first trace can be removed. -/
theorem Withdrawal.removes_retracing {w : World}
    (hvars : (w.interpreter 0).vars = (World.retraced.interpreter 0).vars) :
    retracing.Removes w (w.untraced 0 retracing.place retracing.flags retracing.client) := by
  have htraces : ∀ key, (w.interpreter retracing.interp).vars.tracesOn
      ⟨retracing.place.name, key⟩ =
        if key = none then [Bridge.traceOf 0 .traceReads 0, Bridge.traceOf 0 .traceReads 1]
        else [] := by
    intro key
    rw [place_retracing, ← World.tracesOn_retraced key]
    exact congrArg (·.tracesOn ⟨"a", key⟩) hvars
  have hmeant : [Bridge.traceOf 0 .traceReads 0, Bridge.traceOf 0 .traceReads 1].map
      (Variables.isTraceOf retracing.client retracing.flags) = [true, false] := by decide +kernel
  have hon := htraces retracing.place.key
  rw [place_retracing, if_pos rfl] at hon
  refine ⟨rfl, ?there, ?once, fun key t ht => ?rest⟩
  case there =>
    rw [place_retracing, hon]
    exact ⟨_, List.mem_cons_self, (List.cons.inj hmeant).1⟩
  case once =>
    rw [place_retracing, hon]
    decide +kernel
  case rest =>
    rw [htraces] at ht
    split at ht
    · rename_i hkey
      rcases List.mem_cons.1 ht with rfl | ht
      · exact .inr ⟨hkey.trans (congrArg VarRef.key place_retracing).symm,
          (List.cons.inj hmeant).1⟩
      · exact .inl (List.mem_singleton.1 ht)
    · cases ht

/-- While the loop has still to fire the other trace only, it is not busy. -/
theorem Withdrawal.not_busy_retracing {cs : List Call}
    (h : cs.all (fun c => (c.remaining 0).all fun y =>
      decide (y.trace = Bridge.traceOf 0 .traceReads 1)) = true) : ¬retracing.Busy cs := by
  rintro ⟨y, ⟨c, hc, hy⟩, hother⟩
  have htrace := of_decide_eq_true (List.all_eq_true.1 (List.all_eq_true.1 h c hc) y hy)
  exact hother ⟨fun _ _ => .inl htrace, fun _ _ => htrace⟩

/-- The variable is read, the first trace removes itself, and what is fired then is the
other trace. -/
theorem Machine.Watched.withdrawn_by_itself :
    ∃ m : Machine (.bridgeStep { op := .getVar "m" "a" none .none }),
      m.Watched (Bridge.withdrawal 0 "a" none .traceReads 0
          fun _ t => t = Bridge.traceOf 0 .traceReads 1).monitor Scenario.handle false
        .retraced true ∧
      ∃ t flags later k, m.code = .call (.fire 0 t ⟨"a", none⟩ flags later) k ∧
        t = Bridge.traceOf 0 .traceReads 1 := by
  let x := Withdrawal.retracing
  have hwalk : ∃ (c : Call) (p : Program c.Reply)
      (stack : Stack (.bridgeStep { op := .getVar "m" "a" none .none }) c) (w : World),
      Machine.walk Scenario.handle (fun _ => true) 31
          (.start Scenario.handle (.bridgeStep { op := .getVar "m" "a" none .none }) .retraced) =
        some ⟨c, .set (w.untraced 0 x.place x.flags x.client) p, stack, w⟩ ∧
      (c :: stack.callers).all (fun d => (d.remaining 0).all fun y =>
        decide (y.trace = Bridge.traceOf 0 .traceReads 1)) = true ∧
      (w.interpreter 0).vars = (World.retraced.interpreter 0).vars ∧
      (Machine.walk Scenario.handle (Withdrawal.passes 0 "a"
        fun t => decide (t = Bridge.traceOf 0 .traceReads 1)) 23
        ⟨c, p, stack, w.untraced 0 x.place x.flags x.client⟩).map
        (Machine.firesOn 0 ⟨"a", none⟩ fun _ flags => !flags.contains .interpDestroyed) =
          some true := by
    refine ⟨_, _, _, _, rfl, ?_, rfl, ?_⟩
    · decide +kernel
    · decide +kernel
  obtain ⟨c, p, stack, w, hfirst, hpending, hvars, hrest⟩ := hwalk
  have hstart : Machine.Watched x.monitor Scenario.handle false .retraced false
      (.start Scenario.handle (.bridgeStep { op := .getVar "m" "a" none .none }) .retraced) :=
    .start fun _ hfires => by
      obtain ⟨t, r, flags, later, hd, -⟩ := hfires
      cases hd
  have hremoval : Machine.LeadsWith x.monitor Scenario.handle
      (false, ⟨c, .set (w.untraced 0 x.place x.flags x.client) p, stack, w⟩)
      (true, ⟨c, p, stack, w.untraced 0 x.place x.flags x.client⟩) :=
    ⟨rfl, fun _ => .inr ⟨Withdrawal.not_busy_retracing hpending,
      Withdrawal.removes_retracing hvars⟩⟩
  obtain ⟨m, hsecond, hfires⟩ := Option.map_eq_some_iff.1 hrest
  have hm := ((hstart.walk (fun _ _ _ => Withdrawal.leadsWith_false) hfirst).next hremoval).walk
    (Withdrawal.leadsWith_of_passes fun _ _ => of_decide_eq_true) hsecond
  obtain ⟨t, flags, later, k, hcode, htold⟩ := Machine.code_of_firesOn hfires
  have hother := hm.withdrawn.2.1 t _ flags later k hcode
    (congrArg VarRef.name Withdrawal.place_retracing).symm (by simpa using htold)
  exact ⟨m, hm, t, flags, later, k, hcode, hother.elim id id⟩

/-- Of two traces of a variable the first removes the second, while the variable is being
read; the second is fired though it is there no more. -/
theorem Withdrawal.fired_after_removal :
    let w := World.staged [.silent "f",
      .scripted "g" (.ofActions · [.step { op := .untraceVar "m" "a" none .traceReads "f" }])]
      [(.traceReads, 1), (.traceReads, 0)]
    ∃ m₁ m₂ : Machine (.bridgeStep { op := .getVar "m" "a" none .none }),
      m₁.Occurs {} Scenario.handle w ∧
      m₁.untraced? = some ("m", "a", none, .traceReads, "f") ∧
      Relation.ReflTransGen (fun m m' => m.Leads {} Scenario.handle m' ∧
        ¬m.world.Installed 0 ⟨"a", none⟩ (Bridge.traceOf 0 .traceReads 0)) m₁ m₂ ∧
      ∃ flags later k, m₂.code =
        .call (.fire 0 (Bridge.traceOf 0 .traceReads 0) ⟨"a", none⟩ flags later) k := by
  intro w
  have hwalk : ((Machine.walk Scenario.handle (fun _ => true) 44 (.start Scenario.handle
      (.bridgeStep { op := .getVar "m" "a" none .none }) w)).bind fun m =>
        if m.untraced? = some ("m", "a", none, .traceReads, "f") then
          Machine.walk Scenario.handle (fun m => !decide (m.world.Installed 0 ⟨"a", none⟩
            (Bridge.traceOf 0 .traceReads 0))) 11 m
        else none).map (Machine.firesOn 0 ⟨"a", none⟩ fun t _ =>
          decide (t = Bridge.traceOf 0 .traceReads 0)) = some true := by
    decide +kernel
  obtain ⟨m₂, hbind, hfires⟩ := Option.map_eq_some_iff.1 hwalk
  obtain ⟨m₁, hfirst, hrest⟩ := Option.bind_eq_some_iff.1 hbind
  split at hrest
  · rename_i huntraced
    have hstart : Machine.Occurs {} Scenario.handle w (.start Scenario.handle
        (.bridgeStep { op := .getVar "m" "a" none .none }) w) := .start trivial
    have hlater := Machine.reflTransGen_of_walk (R := fun m m' => m.Leads {} Scenario.handle m' ∧
      ¬m.world.Installed 0 ⟨"a", none⟩ (Bridge.traceOf 0 .traceReads 0)) (fun m m' hgone hstep =>
        ⟨Machine.leads_of_step hstep, by simpa using hgone⟩) hrest
    obtain ⟨t, flags, later, k, hcode, htrace⟩ := Machine.code_of_firesOn hfires
    obtain rfl := of_decide_eq_true htrace
    exact ⟨m₁, m₂, hstart.walk (fun _ _ _ => Machine.leads_of_step) hfirst, huntraced, hlater,
      flags, later, k, hcode⟩
  · cases hrest

end CommandBridge
