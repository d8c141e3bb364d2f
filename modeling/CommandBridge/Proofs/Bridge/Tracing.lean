/-
# Traces are installed once

A trace is known by its client and its flags (`Trace.key`).  The bridge installs a trace
only if there is none of that key on the variable or element yet.  But an unset takes the
traces of a variable away before it fires them, and one of the bridge that is told so
installs itself again without looking.  What is shown here is that this does no harm as
long as nobody installs a trace of the very key that an unset in progress still holds for
that variable or element (`tracing`): then no variable and no element ever carries two
traces of one key (`Machine.Occurs.distinct_traces`).

The invariant is a rely and a guarantee (`Tracing.contract`): a call leaves no duplicates,
and of the traces that unsets in progress hold it installs none but the one that it is
told to install again.  So these stay away until it is their turn
(`Tracing.meets_fireUnset`).
-/

import CommandBridge.Proofs.Interpreter.Coarse
import CommandBridge.Proofs.Interpreter.Firing
import CommandBridge.Proofs.Interpreter.TraceTable
import CommandBridge.Proofs.Run.Execution
import CommandBridge.Proofs.Scenario.Conduct
import CommandBridge.Proofs.Run.Monitor

namespace CommandBridge

namespace World

/-- What the traces on a variable or element of an interpreter are known by. -/
def keysOn (w : World) (i : Nat) (r : VarRef) : List (String × Flags) :=
  ((w.interpreter i).vars.tracesOn r).map Trace.key

/-- No variable or element carries two traces that are known by the same. -/
def Distinct (w : World) : Prop :=
  ∀ i r, (w.keysOn i r).Nodup

/-- Of the traces that are looked at, none were installed from the first world to the second
but the new ones. -/
def Calm (w : World) (on new : Nat → VarRef → String × Flags → Prop) (w' : World) : Prop :=
  ∀ i r k, on i r k → k ∈ w'.keysOn i r → k ∈ w.keysOn i r ∨ new i r k

variable {w w₁ w₂ : World} {on new : Nat → VarRef → String × Flags → Prop}

theorem Calm.trans (h : w.Calm on new w₁) (h' : w₁.Calm on new w₂) : w.Calm on new w₂ :=
  fun i r k hr hk => (h' i r k hr hk).elim (h i r k hr) .inr

theorem Calm.imp {on' new' : Nat → VarRef → String × Flags → Prop} (h : w.Calm on new w₁)
    (hon : ∀ i r k, on' i r k → on i r k) (hnew : ∀ i r k, new i r k → new' i r k) :
    w.Calm on' new' w₁ :=
  fun i r k hr hk => (h i r k (hon i r k hr) hk).imp_right (hnew i r k)

/-- A change that leaves the traces where they are or takes some away. -/
theorem Calm.of_sublist (h : ∀ i r, List.Sublist (w₁.keysOn i r) (w.keysOn i r)) :
    w.Calm on new w₁ :=
  fun i r _ _ hk => .inl ((h i r).subset hk)

theorem Calm.refl (w : World) : w.Calm on new w :=
  .of_sublist fun _ _ => List.Sublist.refl _

theorem Distinct.of_sublist (hw : w.Distinct)
    (h : ∀ i r, List.Sublist (w₁.keysOn i r) (w.keysOn i r)) : w₁.Distinct :=
  fun i r => (hw i r).sublist (h i r)

theorem Distinct.of_eq (hw : w.Distinct) (h : ∀ i r, w₁.keysOn i r = w.keysOn i r) :
    w₁.Distinct := by
  intro i r
  rw [h]
  exact hw i r

theorem keysOn_of_vars {i : Nat} (h : (w₁.interpreter i).vars = (w.interpreter i).vars)
    (r : VarRef) : w₁.keysOn i r = w.keysOn i r := by
  rw [keysOn, h]
  rfl

/-- The trace has been put in front of those of a variable or element, and all others are
as before. -/
def Joined (w : World) (i : Nat) (r : VarRef) (t : Trace) (w' : World) : Prop :=
  ∀ j r', (w'.interpreter j).vars.tracesOn r' =
    if j = i ∧ r' = r then t :: (w.interpreter i).vars.tracesOn r
    else (w.interpreter j).vars.tracesOn r'

theorem joined_of_addTrace {i : Nat} {r : VarRef} {t : Trace} {vs : Variables}
    (hadd : (w.interpreter i).vars.addTrace r t = .ok vs) :
    w.Joined i r t (w.withInterpreter i fun s => { s with vars := vs }) := by
  intro j r'
  rw [interpreter_withInterpreter]
  by_cases hj : i = j
  · subst hj
    rw [if_pos rfl]
    dsimp only
    rw [Variables.tracesOn_addTrace hadd]
    by_cases hr : r = r'
    · rw [if_pos hr, if_pos ⟨rfl, hr.symm⟩]
    · rw [if_neg hr, if_neg fun he => hr he.2.symm]
  · rw [if_neg hj, if_neg fun he => hj he.1.symm]

theorem Joined.keysOn {i : Nat} {r : VarRef} {t : Trace} (h : w.Joined i r t w₁) (j : Nat)
    (r' : VarRef) :
    w₁.keysOn j r' = if j = i ∧ r' = r then t.key :: w.keysOn i r else w.keysOn j r' := by
  rw [World.keysOn, h]
  split <;> rfl

/-- A trace that was not there yet is no duplicate. -/
theorem Joined.distinct {i : Nat} {r : VarRef} {t : Trace} (h : w.Joined i r t w₁)
    (hnew : t.key ∉ w.keysOn i r) (hw : w.Distinct) : w₁.Distinct := by
  intro j r'
  rw [h.keysOn]
  split
  · exact List.nodup_cons.2 ⟨hnew, hw i r⟩
  · exact hw j r'

end World

/-- Whether a trace that is fired with these flags installs itself again. -/
def Trace.reinstalls (t : Trace) (flags : Flags) : Bool :=
  match t.action with
  | .callback _ => !flags.contains .interpDestroyed && flags.contains .traceDestroyed
  | .scripted .. => false

/-- On an access no trace installs itself again. -/
theorem Trace.not_reinstalls_of_isAccess (t : Trace) {op : Flags} (hop : op.IsAccess)
    (flags : Flags) : t.reinstalls (op.union flags.scope) = false := by
  unfold reinstalls
  split
  · rw [(hop.not_contains flags).2, Bool.and_false]
  · rfl

/-- A trace that is told to install itself again does nothing else. -/
theorem Scenario.fireTrace_of_reinstalls {t : Trace} {flags : Flags}
    (h : t.reinstalls flags = true) (i : Nat) (r : VarRef) :
    fireTrace i t r flags = (do
      match ← Interp.addTrace i r.name r.key t with
      | .error => return some (← Interp.result i).str
      | _ => return none) := by
  unfold Trace.reinstalls at h
  split at h
  · rename_i handle haction
    rw [Bool.and_eq_true, Bool.not_eq_true'] at h
    unfold fireTrace Bridge.fire
    rw [haction]
    dsimp only
    refine (if_neg (by rw [h.1]; exact nofun)).trans ((if_pos h.2).trans ?_)
    rfl
  · cases h

/-- A trace of the bridge that is not told to install itself again calls its function or does
nothing. -/
theorem Scenario.fireTrace_of_not_reinstalls {t : Trace} {flags : Flags} {handle : Nat}
    (haction : t.action = .callback handle) (hre : ¬t.reinstalls flags = true) (i : Nat)
    (r : VarRef) :
    fireTrace i t r flags = pure none ∨ fireTrace i t r flags = (do
      return (← Bridge.withHost (Bridge.callTraced i handle t.client r flags)).join) := by
  unfold fireTrace
  unfold Trace.reinstalls at hre
  rw [haction] at hre ⊢
  dsimp only at hre ⊢
  unfold Bridge.fire
  split
  · exact .inl rfl
  · rename_i hinterp
    rw [Bool.not_eq_true] at hinterp
    rw [hinterp, Bool.not_false, Bool.true_and] at hre
    rw [if_neg hre]
    exact .inr rfl

/-- A trace that is not told to install itself again logs itself or calls its function. -/
theorem Program.Conduct.fireTrace_of_not_reinstalls {Ok : Program.Property}
    (h : Program.Conduct Ok) {i : Nat} {t : Trace} {r : VarRef} {flags : Flags}
    (hre : ¬t.reinstalls flags = true) : Ok (Scenario.fireTrace i t r flags) := by
  cases haction : t.action with
  | scripted procedure body veto =>
    unfold Scenario.fireTrace
    rw [haction]
    exact h.runTrace i procedure body veto r flags
  | callback handle =>
    rcases Scenario.fireTrace_of_not_reinstalls haction hre i r with heq | heq
    · rw [heq]
      exact h.pure _
    · rw [heq]
      exact h.bind (h.withHost (h.callTraced i handle t.client r flags)) fun _ => h.pure _

/-- Firing the trace makes it install itself on the variable or element. -/
structure Firing.Installs (x : Firing) (r : VarRef) (k : String × Flags) : Prop where
  told : x.trace.reinstalls x.flags = true
  place : r = x.ref
  key : k = x.trace.key

namespace Call

/-- The trace that a call is told to install again. -/
def installs : Call → Nat → VarRef → String × Flags → Prop
  | .fire i t r flags _, i', r', k => i' = i ∧ (⟨t, r, flags⟩ : Firing).Installs r' k
  | _, _, _, _ => False

/-- Some unset in progress still holds the trace, which is to install itself again. -/
def Awaits (cs : List Call) (i : Nat) (r : VarRef) (k : String × Flags) : Prop :=
  ∃ x, Pending cs i x ∧ x.Installs r k

theorem Awaits.cons {cs : List Call} {i : Nat} {r : VarRef} {k : String × Flags}
    (h : Awaits cs i r k) (c : Call) : Awaits (c :: cs) i r k :=
  h.imp fun _ hx => ⟨hx.1.cons c, hx.2⟩

end Call

/-- The runs in which traces are installed by the bridge, and none of the client and the
flags that an unset in progress still holds for the same variable or element, but for those
that install themselves again.  These belong to variables whose names mean the same when
they are resolved once more. -/
def tracing : Scope where
  calls
    | _, .interpreterStep _ (.trace ..), _ => False
    | [], .fire .., _ => False
    | _, .fire _ t r flags _, _ => t.reinstalls flags = true → VarRef.resolve r.name r.key = r
    | _, _, _ => True
  changes cs c w w' := (∃ i r k, c.installs i r k) ∨
    w.Calm (Call.Awaits (c :: cs)) (fun _ _ _ => False) w'

namespace Tracing

open Interp (firings groupFlags groupTraces groupFirings)

variable {i j : Nat} {cs : List Call} {c : Call} {α : Type}

/-- A call finds no duplicates and leaves none, and of the traces that unsets in progress
hold it installs none but what it is told to. -/
def contract : Contract tracing where
  Pre _ c w := w.Distinct ∧ ∀ i r k, c.installs i r k → k ∉ w.keysOn i r
  Post cs c w w' := w'.Distinct ∧ w.Calm (Call.Awaits (c :: cs)) c.installs w'
  Change w w' _ _ := w.Distinct → w'.Distinct
  change_bind _ h := h

/-- Nothing was installed of what unsets in progress in the calls hold. -/
abbrev Calm (cs : List Call) (w w' : World) : Prop :=
  w.Calm (Call.Awaits cs) (fun _ _ _ => False) w'

/-- Programs of the call `c` that leave no duplicates and install no traces that unsets in
progress hold. -/
abbrev Keeping (cs : List Call) (c : Call) : Program.Property :=
  fun _ p => ∀ w₀, p.Keeps contract cs c fun w => w.Distinct ∧ Calm (c :: cs) w₀ w

theorem keeping_of_meets {p : Program α}
    (hp : ∀ w, w.Distinct →
      p.Meets contract cs c (fun _ w' => w'.Distinct ∧ Calm (c :: cs) w w') w) :
    Keeping cs c p :=
  fun _ w hw => (hp w hw.1).imp fun _ _ hw' => ⟨hw'.1, hw.2.trans hw'.2⟩

theorem Keeping.meets {p : Program α} (hp : Keeping cs c p) {w : World} (hw : w.Distinct) :
    p.Meets contract cs c (fun _ w' => w'.Distinct ∧ Calm (c :: cs) w w') w :=
  hp w w ⟨hw, .refl w⟩

theorem sequential : Program.Sequential (Keeping cs c) where
  pure a _ := .pure a
  bind hp hf w₀ := .bind (hp w₀) fun a => hf a w₀
  get hk w₀ := .get fun w _ => hk w w₀

theorem keeping_update {f : World → α × World}
    (hf : ∀ w, w.Distinct → tracing.changes cs c w (f w).2 →
      (f w).2.Distinct ∧ Calm (c :: cs) w (f w).2) : Keeping cs c (Program.update f) :=
  keeping_of_meets fun w hw hs => ⟨fun _ => (hf w hw hs).1, hf w hw hs⟩

/-- A change that leaves the traces where they are or takes some away. -/
theorem keeping_sublist {f : World → α × World}
    (hf : ∀ w i r, List.Sublist ((f w).2.keysOn i r) (w.keysOn i r)) :
    Keeping cs c (Program.update f) :=
  keeping_update fun w hw _ => ⟨hw.of_sublist (hf w), .of_sublist (hf w)⟩

/-- A change that variables take no part in. -/
theorem keeping_same {f : World → α × World}
    (hf : ∀ w i, ((f w).2.interpreter i).vars = (w.interpreter i).vars) :
    Keeping cs c (Program.update f) :=
  keeping_sublist fun w i r => World.keysOn_of_vars (hf w i) r ▸ List.Sublist.refl _

theorem keeping_modify {f : World → World} (hf : ∀ w, (f w).interpreters = w.interpreters) :
    Keeping cs c (Program.modify f) :=
  keeping_same (f := fun w => ((), f w)) fun w i =>
    congrArg (·.vars) (World.interpreter_congr (hf w) i)

theorem keeping_modifyInterpreter {f : Interpreter → Interpreter}
    (hf : ∀ s, (f s).vars = s.vars) : Keeping cs c (Program.modifyInterpreter j f) :=
  keeping_same (f := fun w => ((), w.withInterpreter j f)) fun _ =>
    World.apply_withInterpreter (·.vars) (hf _)

theorem keeping_request {d : Call} (hd : ∀ i r k, ¬d.installs i r k) :
    Keeping cs c (Program.request d) :=
  keeping_of_meets fun _ hw _ => ⟨⟨hw, fun i r k hk => absurd hk (hd i r k)⟩,
    fun _ _ hw' => ⟨hw'.1, hw'.2.imp (fun _ _ _ ha => ha.cons d) hd⟩⟩

theorem unheld : Program.Unheld (Keeping cs c) where
  toSequential := sequential
  spare hf := keeping_same fun w i =>
    congrArg (·.vars) (World.interpreter_congr (hf w).1 i)
  withPreserved _ _ := keeping_modifyInterpreter fun _ => rfl

theorem keeping_enterTraces (r : VarRef) : Keeping cs c (Interp.enterTraces j r) :=
  keeping_modifyInterpreter fun _ => rfl

theorem keeping_leaveTraces : Keeping cs c (Interp.leaveTraces j) :=
  keeping_modifyInterpreter fun _ => rfl

/-- Traces that are fired on an access do not install themselves again. -/
theorem keeping_fireTraces (r : VarRef) {op : Flags} (hop : op.IsAccess) (flags : Flags) :
    Keeping cs c (Interp.fireTraces j r op flags) := by
  have hfire : ∀ t later,
      Keeping cs c (Program.request (.fire j t r (op.union flags.scope) later)) :=
    fun t _ => keeping_request fun _ _ _ hk =>
      nomatch (t.not_reinstalls_of_isAccess hop flags).symm.trans hk.2.told
  exact sequential.fireTraces (keeping_enterTraces r) keeping_leaveTraces hfire

/-! ### Unset traces -/

/-- The traces that are to install themselves again are different ones, and none of them is
there yet. -/
structure Awaited (w : World) (i : Nat) (xs : List Firing) : Prop where
  apart : xs.Pairwise fun x y => ∀ r k, x.Installs r k → ¬y.Installs r k
  away : ∀ x ∈ xs, ∀ r k, x.Installs r k → k ∉ w.keysOn i r

/-- What may be installed when all this is fired in an interpreter. -/
def Restored (i : Nat) (xs : List Firing) (j : Nat) (r : VarRef) (k : String × Flags) : Prop :=
  j = i ∧ ∃ x ∈ xs, x.Installs r k

theorem Awaited.append_right {w : World} {xs ys : List Firing} (h : Awaited w i (xs ++ ys)) :
    Awaited w i ys :=
  ⟨(List.pairwise_append.1 h.apart).2.1, fun x hx => h.away x (List.mem_append_right _ hx)⟩

theorem Awaited.of_eq {w w' : World} {xs : List Firing} (h : Awaited w i xs)
    (hsame : ∀ r, w'.keysOn i r = w.keysOn i r) : Awaited w' i xs :=
  ⟨h.apart, fun x hx r k hk => by rw [hsame]; exact h.away x hx r k hk⟩

/-- What waits behind the trace that is fired is installed by nobody meanwhile. -/
theorem Awaited.next {w w' : World} {t : Trace} {r : VarRef} {flags : Flags} {xs : List Firing}
    (h : Awaited w i (⟨t, r, flags⟩ :: xs))
    (hcalm : w.Calm (Call.Awaits (.fire i t r flags xs :: c :: cs))
      (Call.fire i t r flags xs).installs w') : Awaited w' i xs := by
  obtain ⟨hfirst, hrest⟩ := List.pairwise_cons.1 h.apart
  refine ⟨hrest, fun x hx r' k hk hin => ?_⟩
  rcases hcalm i r' k ⟨x, Call.pending_fire hx, hk⟩ hin with hin | ⟨-, hinstalls⟩
  · exact h.away x (List.mem_cons_of_mem _ hx) r' k hk hin
  · exact hfirst x hx r' k hinstalls hk

/-- Unset traces are fired one by one, while none of those that are still to be fired is
installed by anybody. -/
theorem meets_fireAll {r : VarRef} {flags : Flags} {ts : List Trace} {xs : List Firing} {w : World}
    (hw : w.Distinct) (hts : Awaited w i (firings r flags ts ++ xs)) :
    (Interp.fireAll i r flags xs ts).Meets contract cs c
      (fun _ w' => w'.Distinct ∧ Awaited w' i xs ∧
        w.Calm (Call.Awaits (c :: cs)) (Restored i (firings r flags ts)) w') w := by
  induction ts generalizing w with
  | nil => exact ⟨hw, hts, .refl w⟩
  | cons t ts ih =>
    have hpre : ∀ j r' k, (Call.fire i t r flags (firings r flags ts ++ xs)).installs j r'
        k → k ∉ w.keysOn j r' := by
      rintro j r' k ⟨rfl, hk⟩
      exact hts.away _ List.mem_cons_self r' k hk
    refine Program.Meets.bind (Program.Meets.bind fun _ => ⟨⟨hw, hpre⟩, fun _ w₁ hw₁ => ?_⟩)
    obtain ⟨hw₁, hcalm⟩ := hw₁
    refine (ih hw₁ (hts.next hcalm)).imp fun _ w' hw' => ⟨hw'.1, hw'.2.1, ?_⟩
    refine World.Calm.trans (hcalm.imp (fun _ _ _ ha => ha.cons _) ?_)
      (hw'.2.2.imp (fun _ _ _ ha => ha) ?_)
    · exact fun j r' k hk => ⟨hk.1, _, List.mem_cons_self, hk.2⟩
    · exact fun j r' k hk => ⟨hk.1, hk.2.imp fun x hx => ⟨List.mem_cons_of_mem _ hx.1, hx.2⟩⟩

/-- Where the traces of one group have been fired nothing has been installed of what unsets
hold but what the group may install. -/
theorem meets_fireGroup {name : String} {extra : Flags} {g : UnsetGroup}
    {others : List UnsetGroup} {w : World} (hw : w.Distinct)
    (hg : Awaited w i (groupFirings name extra (g :: others))) :
    (Interp.fireGroup i name extra g others).Meets contract cs c
      (fun _ w' => w'.Distinct ∧ Awaited w' i (groupFirings name extra others) ∧
        w.Calm (Call.Awaits (c :: cs)) (Restored i (groupFirings name extra [g])) w') w := by
  rw [groupFirings, List.flatMap_cons] at hg
  refine Program.meets_reading_iff.2 ?_
  split
  · exact ⟨hw, hg.append_right, .refl w⟩
  · have hsame : ∀ (v : World) (f : Interpreter → Interpreter), (∀ s, (f s).vars = s.vars) →
        ∀ j r, World.keysOn (v.withInterpreter i f) j r = v.keysOn j r := fun v f hf j =>
      World.keysOn_of_vars (World.apply_withInterpreter (·.vars) (hf _) j)
    have henter := hsame w (fun s => { s with active := ⟨name, g.key⟩ :: s.active }) fun _ => rfl
    have hw₁ := hw.of_eq henter
    refine Program.Meets.bind fun _ => ⟨fun _ => hw₁, Program.Meets.bind ?_⟩
    refine (meets_fireAll hw₁ (hg.of_eq (henter i))).imp fun _ w' hw' => ?_
    have hleave := hsame w' (fun s => { s with active := s.active.tail }) fun _ => rfl
    refine fun _ => ⟨fun hd => hd.of_eq hleave, hw'.1.of_eq hleave, hw'.2.1.of_eq (hleave i),
      fun j r k hon hk => ?_⟩
    rw [hleave] at hk
    rw [groupFirings, List.flatMap_cons, List.flatMap_nil, List.append_nil]
    exact (hw'.2.2 j r k hon hk).imp_left fun hk => henter j r ▸ hk

/-- The groups of an unset are fired one by one, while none of the traces that are still
to be fired is installed by anybody. -/
theorem meets_fireUnset {name : String} {extra : Flags} {groups : List UnsetGroup} {w : World}
    (hw : w.Distinct) (hgs : Awaited w i (groupFirings name extra groups)) :
    (Interp.fireUnset i name extra groups).Meets contract cs c
      (fun _ w' => w'.Distinct ∧
        w.Calm (Call.Awaits (c :: cs)) (Restored i (groupFirings name extra groups)) w') w := by
  induction groups generalizing w with
  | nil => exact ⟨hw, .refl w⟩
  | cons g groups ih =>
    refine Program.Meets.bind ((meets_fireGroup hw hgs).imp fun _ w₁ hw₁ => ?_)
    obtain ⟨hw₁, hrest, hcalm⟩ := hw₁
    refine (ih hw₁ hrest).imp fun _ w' hw' => ⟨hw'.1, ?_⟩
    have hmem : ∀ {xs : List Firing}, xs ⊆ groupFirings name extra (g :: groups) → ∀ j r k,
        Restored i xs j r k → Restored i (groupFirings name extra (g :: groups)) j r k :=
      fun hxs j r k hk => ⟨hk.1, hk.2.imp fun x hx => ⟨hxs hx.1, hx.2⟩⟩
    rw [groupFirings, List.flatMap_cons] at hmem ⊢
    refine World.Calm.trans (hcalm.imp (fun _ _ _ ha => ha) (hmem ?_))
      (hw'.2.imp (fun _ _ _ ha => ha) (hmem ?_))
    · rw [groupFirings, List.flatMap_cons, List.flatMap_nil, List.append_nil]
      exact List.subset_append_left _ _
    · exact List.subset_append_right _ _

theorem destroyed_of_reinstalls {t : Trace} {flags : Flags} {g : UnsetGroup}
    (h : t.reinstalls (groupFlags flags.scope g) = true) : g.destroyed = true := by
  refine Decidable.byContradiction fun hd => ?_
  rw [Bool.not_eq_true] at hd
  have hnone : (groupFlags flags.scope g).contains .traceDestroyed = false := by
    have hflags : groupFlags flags.scope g = Flags.traceUnsets.union flags.scope := by
      rw [groupFlags, hd]
      exact congrArg Flags.mk UInt32.or_zero
    rw [hflags]
    exact Flags.contains_union_scope (by decide) (by decide) (by decide) flags
  unfold Trace.reinstalls at h
  split at h
  · rw [hnone, Bool.and_false] at h
    cases h
  · cases h

/-- What a group fires makes a trace of it install itself where the group is from. -/
theorem installs_of_mem_groupFirings {name : String} {extra : Flags} {groups : List UnsetGroup}
    {x : Firing} (hx : x ∈ groupFirings name extra groups) {r : VarRef} {k : String × Flags}
    (hk : x.Installs r k) : ∃ g ∈ groups, ∃ t ∈ g.traces,
      t.reinstalls (groupFlags extra g) = true ∧ r = ⟨name, g.key⟩ ∧ k = t.key := by
  obtain ⟨g, hg, hx⟩ := List.mem_flatMap.1 hx
  obtain ⟨t, ht, rfl⟩ := List.mem_map.1 hx
  exact ⟨g, hg, t, (List.mem_filter.1 ht).1, hk.told, hk.place, hk.key⟩

/-- The traces that an unset has taken away wait for their turn. -/
theorem awaited_of_detached {vs : Variables} {name : String} {groups : List UnsetGroup}
    {flags : Flags} {w : World} (hw : w.Distinct)
    (h : Variables.Detached (w.interpreter i).vars vs name groups) :
    Awaited (w.withInterpreter i fun s => { s with vars := vs }) i
      (groupFirings name flags.scope groups) := by
  refine ⟨List.pairwise_flatMap.2 ⟨fun g hg => ?_,
    h.apart.imp fun {g g'} hne x hx y hy r k hk hk' => ?_⟩, fun x hx r k hk hin => ?_⟩
  · refine List.pairwise_map.2 (List.Pairwise.filter _ ?_)
    by_cases hd : g.destroyed = true
    · have hnodup := hw i ⟨name, g.key⟩
      rw [World.keysOn, ← h.traces g hg hd] at hnodup
      exact (List.pairwise_map.1 hnodup).imp fun hne r k hk hk' =>
        hne (hk.key.symm.trans hk'.key)
    · exact List.pairwise_of_forall fun _ _ _ _ hk => absurd (destroyed_of_reinstalls hk.told) hd
  · obtain ⟨t, -, rfl⟩ := List.mem_map.1 hx
    obtain ⟨t', -, rfl⟩ := List.mem_map.1 hy
    exact hne (destroyed_of_reinstalls hk.told) (destroyed_of_reinstalls hk'.told)
      (VarRef.mk.inj (hk.place.symm.trans hk'.place)).2
  · obtain ⟨g, hg, t, -, hre, rfl, -⟩ := installs_of_mem_groupFirings hx hk
    rw [World.keysOn, World.interpreter_withInterpreter_self] at hin
    dsimp only at hin
    rw [h.gone g hg (destroyed_of_reinstalls hre)] at hin
    cases hin

theorem setResult (i : Nat) (v : Value) : Keeping cs c (Interp.setResult i v) :=
  keeping_modifyInterpreter fun _ => rfl

theorem fail (i : Nat) (message : String) : Keeping cs c (Interp.fail i message) :=
  sequential.bind (setResult i _) fun _ => sequential.pure _

/-- Other variables of one interpreter, whose traces were all there before. -/
theorem shrunk {w : World} {vs : Variables}
    (hvs : ∀ r, List.Sublist (vs.tracesOn r) ((w.interpreter i).vars.tracesOn r)) (j : Nat)
    (r : VarRef) : List.Sublist
      (World.keysOn (w.withInterpreter i fun s => { s with vars := vs }) j r) (w.keysOn j r) := by
  rw [World.keysOn, World.interpreter_withInterpreter]
  split
  · subst j
    exact (hvs r).map _
  · exact List.Sublist.refl _

/-- An unset takes traces away, and none come back but those. -/
theorem keeping_unset (name : String) (key : Option String) (flags : Flags) :
    Keeping cs c (Interp.unset j name key flags) := by
  refine keeping_of_meets fun w hw => Program.meets_update_iff.2 fun _ => ?_
  cases hdetach : (w.interpreter j).vars.detach (VarRef.resolve name key) with
  | error e =>
    have hreport : Keeping cs c (Interp.reportAccess j flags "unset" (VarRef.resolve name key)
        e.message) := sequential.reportAccess (setResult j) _ _ _ _
    exact ⟨fun hd => hd, Keeping.meets (sequential.bind hreport fun _ => sequential.pure _) hw⟩
  | ok result =>
    obtain ⟨groups, vs⟩ := result
    have hdetached := Variables.detached hdetach
    have hsub := shrunk (w := w) (i := j) hdetached.sublist
    have hw₁ := hw.of_sublist hsub
    refine ⟨fun _ => hw₁, Program.Meets.bind ((meets_fireUnset hw₁
      (awaited_of_detached hw hdetached)).imp fun _ w' hw' => ⟨hw'.1, fun i r k hr hk => .inl ?_⟩)⟩
    rcases hw'.2 i r k hr hk with hk | ⟨rfl, x, hx, hinstalls⟩
    · exact (hsub i r).subset hk
    · obtain ⟨g, hg, t, ht, hre, rfl, rfl⟩ := installs_of_mem_groupFirings hx hinstalls
      rw [World.keysOn, ← hdetached.traces g hg (destroyed_of_reinstalls hre)]
      exact List.mem_map_of_mem ht

/-! ### Installing and removing -/

theorem keeping_store (r : VarRef) (v : Value) (flags : Flags) :
    Keeping cs c (Interp.store j r v flags) := by
  refine keeping_sublist fun w i r' => ?_
  split
  · exact List.Sublist.refl _
  · rename_i hstore
    exact shrunk (fun r' => Variables.tracesOn_store hstore r' ▸ List.Sublist.refl _) i r'

theorem keeping_removeTrace (name : String) (key : Option String) (flags : Flags)
    (client : String) : Keeping cs c (Interp.removeTrace j name key flags client) :=
  keeping_sublist fun _ => shrunk fun r' => Variables.tracesOn_removeTrace _ _ _ _ r'

/-- The bridge sees whether a trace is there. -/
theorem installed_iff {w : World} {r : VarRef} {client : String} {flags : Flags} :
    ((w.interpreter i).vars.tracesOn r).any (Bridge.isInstalled client flags) = true ↔
      (client, flags) ∈ w.keysOn i r := by
  rw [List.any_eq_true, World.keysOn, List.mem_map]
  refine exists_congr fun t => and_congr_right fun _ => ?_
  rw [Bridge.isInstalled, Bool.and_eq_true, beq_iff_eq, beq_iff_eq, Trace.key, Prod.mk.injEq]

/-- The bridge installs a trace if it is not there yet. -/
theorem keeping_traceVar (hc : ∀ i r k, ¬c.installs i r k) (handle : Nat) (name : String)
    (key : Option String) (flags : Flags) (function : Nat) :
    Keeping cs c (Bridge.traceVar handle name key flags function) := by
  refine sequential.withLive handle fun i => keeping_of_meets fun w hw => ?_
  have hlast : ∀ status : Status, Keeping cs c (match status with
      | .error => Bridge.resultError i
      | _ => do
        Bridge.keepFunction handle (Bridge.clientName function) function
        return .ok ()) := by
    intro status
    split
    · exact sequential.bind (sequential.reading _) fun _ => sequential.pure _
    · exact sequential.bind (keeping_modify fun _ => rfl) fun _ => sequential.pure _
  refine Program.meets_reading_iff.2 ?_
  split
  · exact Keeping.meets (sequential.bind (sequential.pure _) hlast) hw
  · rename_i hinstalled
    refine Program.Meets.bind (Program.Meets.imp ?_ fun status w₁ hw₁ => hlast status w w₁ hw₁)
    refine Program.meets_reading_iff.2 ?_
    split
    · rename_i vs hadd
      have hw₁ := (World.joined_of_addTrace hadd).distinct
        (fun hk => hinstalled (installed_iff.2 hk)) hw
      exact Program.Meets.bind fun hs => ⟨fun _ => hw₁, hw₁,
        hs.resolve_left fun ⟨j, r, k, hk⟩ => hc j r k hk⟩
    · exact (fail i _).meets hw

theorem keeping_untraceVar (handle : Nat) (name : String) (key : Option String) (flags : Flags)
    (function : Nat) : Keeping cs c (Bridge.untraceVar handle name key flags function) :=
  sequential.untraceVar (fun _ => keeping_removeTrace name key) (keeping_modify fun _ => rfl)

/-! ### All programs -/

theorem keeping_runDelete (action : Option DeleteAction) :
    Keeping cs c (Interp.runDelete j action) := by
  cases action with
  | none => exact sequential.pure ()
  | some a => exact keeping_request fun _ _ _ hk => hk

theorem not_reinstalls_destroyed (t : Trace) (g : UnsetGroup) :
    ¬t.reinstalls (groupFlags (Flags.interpDestroyed.union .globalOnly) g) = true := by
  have hflags : (groupFlags (Flags.interpDestroyed.union .globalOnly) g).contains
      .interpDestroyed = true :=
    Flags.contains_union_left (Flags.contains_union_right (by decide) _) _
  unfold Trace.reinstalls
  split
  · rw [hflags]
    exact nofun
  · exact nofun

/-- All variables may be taken away. -/
theorem keeping_clear {f : World → α} : Keeping cs c
    (Program.update fun w => (f w, w.withInterpreter j fun s => { s with vars := ∅ })) :=
  keeping_sublist fun _ => shrunk fun r => by
    rw [Variables.tracesOn_eq, Std.ExtTreeMap.getElem?_empty]
    exact List.nil_sublist _

/-- In an interpreter that is taken down no trace installs itself again. -/
theorem keeping_fireUnset (name : String) (groups : List UnsetGroup) :
    Keeping cs c (Interp.fireUnset j name (Flags.interpDestroyed.union .globalOnly) groups) := by
  refine sequential.fireUnset (fun r => keeping_enterTraces r) keeping_leaveTraces
    (fun t g _ => keeping_request fun _ _ _ hk => ?_) groups
  exact not_reinstalls_destroyed t g hk.2.told

theorem keeping_takeDown : Keeping cs c (Interp.takeDown j) := by
  have hcommands : Keeping cs c (Interp.takeCommands j) := keeping_same fun _ =>
    World.apply_withInterpreter (·.vars) rfl
  exact sequential.bind hcommands fun _ => sequential.bind
    (sequential.each (fun _ => keeping_runDelete _) _) fun _ => sequential.bind keeping_clear
      fun _ => sequential.bind (sequential.each (fun _ => keeping_fireUnset _ _) _) fun _ =>
        keeping_clear

theorem keeping_dispose : Keeping cs c (Interp.dispose j) := by
  rw [Interp.dispose_eq]
  refine sequential.get fun w => ?_
  split
  · exact sequential.pure ()
  · exact sequential.bind
      (keeping_modifyInterpreter (f := fun s => { s with disposed := true }) fun _ => rfl)
      fun _ => keeping_takeDown

theorem keeping_release : Keeping cs c (Interp.release j) :=
  unheld.release keeping_dispose

/-- A new interpreter has no variables. -/
theorem keeping_addInterpreter (maxNesting : Nat) :
    Keeping cs c (Bridge.addInterpreter maxNesting) := by
  refine keeping_same fun w i => ?_
  dsimp only
  rw [w.interpreter_add]
  split
  · subst i
    rw [w.interpreter_next]
    rfl
  · rfl

theorem keeping_takeCommand (name : String) : Keeping cs c (Interp.takeCommand j name) :=
  keeping_same fun _ => World.apply_withInterpreter (·.vars) rfl

theorem keeping_putCommand (name : String) (command : Command) :
    Keeping cs c (Interp.putCommand j name command) :=
  keeping_modifyInterpreter fun _ => rfl

theorem keeping_createCommand (name : String) (command : Command) :
    Keeping cs c (Interp.createCommand j name command) :=
  sequential.createCommand (keeping_takeCommand name) keeping_runDelete
    (keeping_putCommand name command)

theorem keeping_deleteCommand (name : String) : Keeping cs c (Interp.deleteCommand j name) :=
  sequential.deleteCommand (keeping_takeCommand name) keeping_runDelete

theorem keeping_renameCommand (old new : String) :
    Keeping cs c (Interp.renameCommand j old new) :=
  sequential.renameCommand (fail j) (keeping_takeCommand old) (keeping_deleteCommand old)
    (keeping_putCommand new)

/-- The programs of all calls that are not told to install a trace again, but for the
evaluations. -/
theorem conduct (hc : ∀ i r k, ¬c.installs i r k) : Program.Conduct (Keeping cs c) where
  toSequential := sequential
  setResult := setResult
  fireTraces _ r _ hop flags := keeping_fireTraces r hop flags
  invoke _ _ := keeping_request fun _ _ _ hk => hk
  overflow _ _ := .overflow _
  update hf := unheld.spare fun w => ⟨(hf w).interpreters, (hf w).handles⟩
  request {d} hd := keeping_request fun _ _ _ hk => by
    cases d with
    | fire => exact hd
    | _ => exact hk
  modifyInterpreter _ _ hf := keeping_modifyInterpreter fun s => (hf.tables s).2.1
  store _ := keeping_store
  unset _ := keeping_unset
  createCommand _ name _ _ := keeping_createCommand name _
  deleteCommand _ := keeping_deleteCommand
  delete _ := sequential.delete (keeping_modifyInterpreter fun _ => rfl) keeping_dispose
  buildBundle := unheld.buildBundle
  teardown := unheld.teardown fun _ => keeping_release
  addInterpreter := keeping_addInterpreter
  addHandle _ _ := keeping_same fun _ _ => rfl
  destroy _ := sequential.destroy (keeping_modify fun _ => rfl) fun _ => sequential.delete
    (keeping_modifyInterpreter fun _ => rfl) keeping_dispose
  register _ name _ := sequential.register (fun _ => keeping_createCommand name _)
    (keeping_modify fun _ => rfl)
  traceVar := keeping_traceVar hc
  untraceVar := keeping_untraceVar

/-- A trace that is told to install itself again does so, and it is not there yet. -/
theorem meets_fire {t : Trace} {r : VarRef} {flags : Flags} {later : List Firing} {w : World}
    (hr : VarRef.resolve r.name r.key = r) (hre : t.reinstalls flags = true) (hw : w.Distinct)
    (hnew : t.key ∉ w.keysOn i r) :
    (Scenario.fireTrace i t r flags).Meets contract cs (.fire i t r flags later)
      (fun _ w' => contract.Post cs (.fire i t r flags later) w w') w := by
  rw [Scenario.fireTrace_of_reinstalls hre]
  refine Program.Meets.bind (Program.meets_reading_iff.2 ?_)
  rw [hr]
  split
  · rename_i vs hadd
    have hjoined := World.joined_of_addTrace hadd
    have hw' := hjoined.distinct hnew hw
    refine Program.Meets.bind fun _ => ⟨fun _ => hw', hw', fun j r' k _ hk => ?_⟩
    rw [hjoined.keysOn] at hk
    split at hk
    · rename_i heq
      obtain ⟨rfl, rfl⟩ := heq
      exact (List.mem_cons.1 hk).elim (fun hk => .inr ⟨rfl, hre, rfl, hk⟩) .inl
    · exact .inl hk
  · refine ((fail i _).meets hw).imp fun status w' hw' => ?_
    have hpost : contract.Post cs (.fire i t r flags later) w w' :=
      ⟨hw'.1, hw'.2.imp (fun _ _ _ ha => ha) fun _ _ _ hn => hn.elim⟩
    cases status <;> exact hpost

/-- Other traces log themselves or call their function. -/
theorem keeping_fireTrace (hc : ∀ i r k, ¬c.installs i r k) {t : Trace} {r : VarRef}
    {flags : Flags} (hre : ¬t.reinstalls flags = true) :
    Keeping cs c (Scenario.fireTrace i t r flags) :=
  (conduct hc).fireTrace_of_not_reinstalls hre

/-- Every call keeps the account of the traces. -/
theorem holds : contract.Holds Scenario.handle := by
  intro cs c w hs hw
  obtain ⟨hw, hnew⟩ := hw
  have hpost : ∀ {p : Program c.Reply}, (∀ i r k, ¬c.installs i r k) → Keeping cs c p →
      p.Meets contract cs c (fun _ w' => contract.Post cs c w w') w := fun hc hp =>
    (hp.meets hw).imp fun _ w' hw' =>
      ⟨hw'.1, hw'.2.imp (fun _ _ _ ha => ha) fun _ _ _ hn => hn.elim⟩
  cases c with
  | interpreterStep j step =>
    have h : Program.Conduct (Keeping cs (.interpreterStep j step)) := conduct fun _ _ _ hk => hk
    refine hpost (fun _ _ _ hk => hk) (h.runStep j step
      (fun old new _ => keeping_renameCommand old new) ?_ keeping_removeTrace
      (unheld.addGuard j) (unheld.dropGuard fun _ => keeping_release)
      (fun _ => unheld.withPreserved j (· + 1)) fun _ => keeping_release)
    rintro name key flags client procedure body veto rfl
    exact hs.elim
  | fire i t r flags later =>
    by_cases hre : t.reinstalls flags = true
    · have hr : VarRef.resolve r.name r.key = r := by
        cases cs with
        | nil => exact hs.elim
        | cons => exact hs hre
      exact meets_fire hr hre hw (hnew i r t.key ⟨rfl, hre, rfl, rfl⟩)
    · have hc : ∀ j r' k, ¬(Call.fire i t r flags later).installs j r' k := fun _ _ _ hk =>
        hre hk.2.told
      exact hpost hc (keeping_fireTrace hc hre)
  | deleted j action =>
    have h : Program.Conduct (Keeping cs (.deleted j action)) := conduct fun _ _ _ hk => hk
    refine hpost (fun _ _ _ hk => hk) ?_
    cases action with
    | forget handle key => exact keeping_modify fun _ => rfl
    | scripted label body => exact h.runDeleted j label body
  | eval j script =>
    have h : Program.Conduct (Keeping cs (.eval j script)) := conduct fun _ _ _ hk => hk
    exact hpost (fun _ _ _ hk => hk) (unheld.guarded (fail j) keeping_release
      (h.bind (h.setResult j _) fun _ => h.runScript j _))
  | evalWords j words =>
    exact hpost (fun _ _ _ hk => hk) (unheld.guarded (fail j) keeping_release
      ((conduct (c := .evalWords j words) fun _ _ _ hk => hk).invoke j words))
  | invoke j words =>
    have h : Program.Conduct (Keeping cs (.invoke j words)) := conduct fun _ _ _ hk => hk
    exact hpost (fun _ _ _ hk => hk) (h.invokeWith
      (h.performProcedure h.callHost fun _ => keeping_renameCommand) j
      (keeping_modifyInterpreter fun _ => rfl) (keeping_modifyInterpreter fun _ => rfl) words)
  | host g args =>
    exact hpost (fun _ _ _ hk => hk)
      ((conduct (c := .host g args) fun _ _ _ hk => hk).callValue g args)
  | bridgeStep step =>
    exact hpost (fun _ _ _ hk => hk)
      ((conduct (c := .bridgeStep step) fun _ _ _ hk => hk).runBridgeStep step)

theorem between : contract.Between World.Distinct where
  pre c w hs hw := by
    refine ⟨hw, fun i r k hk => ?_⟩
    cases c with
    | fire => exact hs.elim
    | _ => exact hk.elim
  post _ _ _ _ hw' := hw'.1
  aside _ _ hw ha := hw.of_eq fun i =>
    World.keysOn_of_vars (congrArg (fun is => (Pool.get is i).vars) ha.interpreters)

end Tracing

/-! ### The clients of functions -/

namespace Bridge

/-- The value of a hexadecimal digit in lower case. -/
def hexDigit (c : Char) : Nat :=
  if c.isDigit then c.toNat - '0'.toNat else c.toNat - 'a'.toNat + 10

/-- The value of hexadecimal digits. -/
def hexValue (cs : List Char) : Nat :=
  cs.foldl (fun n c => 16 * n + hexDigit c) 0

theorem hexDigit_digitChar : ∀ {n : Nat}, n < 16 → hexDigit n.digitChar = n := by
  decide

theorem hexValue_append_singleton (cs : List Char) (c : Char) :
    hexValue (cs ++ [c]) = 16 * hexValue cs + hexDigit c := by
  rw [hexValue, List.foldl_append]
  rfl

theorem hexValue_toDigits (n : Nat) : hexValue (Nat.toDigits 16 n) = n := by
  induction n using Nat.strongRecOn with
  | _ n ih =>
    rw [Nat.toDigits_eq_if (by decide)]
    split
    · rename_i hn
      change 16 * 0 + hexDigit n.digitChar = n
      rw [hexDigit_digitChar hn, Nat.mul_zero, Nat.zero_add]
    · rename_i hn
      rw [hexValue_append_singleton, hexDigit_digitChar (Nat.mod_lt n (by decide)),
        ih (n / 16) (Nat.div_lt_self (by omega) (by decide)), Nat.div_add_mod]

/-- Zeros in front do not count. -/
theorem hexValue_replicate_append (k : Nat) (cs : List Char) :
    hexValue (List.replicate k '0' ++ cs) = hexValue cs := by
  induction k with
  | zero => rfl
  | succ k ih => exact ih

/-- Different functions have different clients. -/
theorem eq_of_clientName_eq {f g : Nat} (h : clientName f = clientName g) : f = g := by
  have hlist : ∀ n, hexValue ((clientName n).toList.drop clientMarker.toList.length) = n := by
    intro n
    rw [clientName, String.toList_append, List.drop_left, hex16, String.toList_ofList,
      hexValue_replicate_append, hexValue_toDigits]
  rw [← hlist f, h, hlist g]

/-- The trace that calls a function. -/
def traceOf (handle : Nat) (flags : Flags) (function : Nat) : Trace :=
  { flags := traceFlags flags, client := clientName function, action := .callback handle }

end Bridge

/-! ### Registering -/

namespace World

/-- What comes of registering a trace: if one that is known by the same is there, nothing
happens, and if not, the trace joins the others, unless an element of a scalar was meant. -/
inductive Registers (w : World) (i : Nat) (r : VarRef) (t : Trace) :
    Except BridgeError Unit → World → Prop
  | again {w' : World} (hkey : t.key ∈ w.keysOn i r)
      (hsame : ∀ j, (w'.interpreter j).vars = (w.interpreter j).vars) :
      Registers w i r t (.ok ()) w'
  | joined {w' : World} (hkey : t.key ∉ w.keysOn i r) (hjoined : w.Joined i r t w') :
      Registers w i r t (.ok ()) w'
  | refused {w' : World} {e : VarError} {message : BridgeError} (hkey : t.key ∉ w.keysOn i r)
      (hrefused : (w.interpreter i).vars.addTrace r t = .error e)
      (hsame : ∀ j, (w'.interpreter j).vars = (w.interpreter j).vars) :
      Registers w i r t (.error message) w'

theorem Registers.distinct {w w' : World} {i : Nat} {r : VarRef} {t : Trace}
    {result : Except BridgeError Unit} (h : w.Registers i r t result w') (hw : w.Distinct) :
    w'.Distinct := by
  cases h with
  | again _ hsame => exact hw.of_eq fun j r' => keysOn_of_vars (hsame j) r'
  | joined hkey hjoined => exact hjoined.distinct hkey hw
  | refused _ _ hsame => exact hw.of_eq fun j r' => keysOn_of_vars (hsame j) r'

end World

namespace Bridge

/-- What installing a trace comes to: nothing happens if there is one that is known by the
same. -/
def installed (w : World) (i : Nat) (r : VarRef) (t : Trace) : Status × World :=
  if ((w.interpreter i).vars.tracesOn r).any (isInstalled t.client t.flags) then (.ok, w)
  else match (w.interpreter i).vars.addTrace r t with
    | .ok vs => (.ok, w.withInterpreter i fun s => { s with vars := vs })
    | .error e => (.error, w.withInterpreter i fun s => { s with
        result := .text (Interp.accessMessage "trace" r e.message) })

/-- How registering a trace ends. -/
def finishTrace (h i function : Nat) (status : Status) : Program (Except BridgeError Unit) :=
  match status with
  | .error => resultError i
  | _ => do
    keepFunction h (clientName function) function
    return .ok ()

section Registering

variable {handler : Machine.Handler} {w w' : World} {h i function : Nat} {r : VarRef} {t : Trace}
  {result : Except BridgeError Unit}

theorem runs_traceVar_iff (hi : live? w h = some i) {name : String} {key : Option String}
    {flags : Flags} :
    Program.Runs handler (traceVar h name key flags function) w result w' ↔
      Program.Runs handler
        (finishTrace h i function
          (installed w i (VarRef.resolve name key) (traceOf h flags function)).1)
        (installed w i (VarRef.resolve name key) (traceOf h flags function)).2 result w' := by
  refine Program.runs_get_iff.trans ?_
  dsimp only [Bind.bind, Program.bind]
  rw [hi]
  refine Program.runs_get_iff.trans ?_
  dsimp only [Program.bind, installed, traceOf]
  by_cases hinstalled : ((w.interpreter i).vars.tracesOn (VarRef.resolve name key)).any
      (isInstalled (clientName function) (traceFlags flags)) = true
  · rw [if_pos hinstalled, if_pos hinstalled]
    exact Iff.rfl
  · rw [if_neg hinstalled, if_neg hinstalled]
    refine Program.runs_get_iff.trans ?_
    dsimp only [Bind.bind, Program.bind]
    cases (w.interpreter i).vars.addTrace (VarRef.resolve name key)
        { flags := traceFlags flags, client := clientName function, action := .callback h } with
    | ok vs => exact Program.runs_get_iff.trans Program.runs_set_iff
    | error e => exact Program.runs_get_iff.trans Program.runs_set_iff

theorem exists_runs_finishTrace (handler : Machine.Handler) (h i function : Nat)
    (status : Status) (w : World) :
    ∃ result w', Program.Runs handler (finishTrace h i function status) w result w' := by
  unfold finishTrace
  split
  · exact ⟨_, _, .get (.done _ _)⟩
  · exact ⟨_, _, .get (.set (.done _ _))⟩

/-- The end of registering leaves the traces alone, and it succeeds if the trace is there. -/
theorem finishTrace_spec {status : Status}
    (hr : Program.Runs handler (finishTrace h i function status) w result w') :
    (∀ j, w'.interpreter j = w.interpreter j) ∧
      ((∃ message, status = .error ∧ result = .error message) ∨
        (status ≠ .error ∧ result = .ok ())) := by
  unfold finishTrace at hr
  split at hr
  · replace hr := Program.runs_get_iff.1 hr
    obtain ⟨rfl, rfl⟩ := Program.runs_done_iff.1 hr
    exact ⟨fun _ => rfl, .inl ⟨_, rfl, rfl⟩⟩
  · rename_i hstatus
    replace hr := Program.runs_set_iff.1 (Program.runs_get_iff.1 hr)
    obtain ⟨rfl, rfl⟩ := Program.runs_done_iff.1 hr
    exact ⟨fun _ => rfl, .inr ⟨hstatus, rfl⟩⟩

/-- Registering a trace always comes to an end. -/
theorem exists_runs_traceVar (hi : live? w h = some i) (name : String) (key : Option String)
    (flags : Flags) (function : Nat) : ∃ result w',
      Program.Runs handler (traceVar h name key flags function) w result w' := by
  obtain ⟨result, w', hr⟩ := exists_runs_finishTrace handler h i function
    (installed w i (VarRef.resolve name key) (traceOf h flags function)).1
    (installed w i (VarRef.resolve name key) (traceOf h flags function)).2
  exact ⟨result, w', (runs_traceVar_iff hi).2 hr⟩

theorem registers_of_runs (hi : live? w h = some i) {name : String} {key : Option String}
    {flags : Flags}
    (hr : Program.Runs handler (traceVar h name key flags function) w result w') :
    w.Registers i (VarRef.resolve name key) (traceOf h flags function) result w' := by
  obtain ⟨hsame, hresult⟩ := finishTrace_spec ((runs_traceVar_iff hi).1 hr)
  by_cases hkey : (traceOf h flags function).key ∈ w.keysOn i (VarRef.resolve name key)
  · rw [installed, if_pos (Tracing.installed_iff.2 hkey)] at hsame hresult
    obtain rfl := (hresult.resolve_left fun ⟨_, hstatus, _⟩ => nomatch hstatus).2
    exact .again hkey fun j => by rw [hsame]
  · rw [installed, if_neg (mt Tracing.installed_iff.1 hkey)] at hsame hresult
    cases hadd : (w.interpreter i).vars.addTrace (VarRef.resolve name key)
        (traceOf h flags function) with
    | ok vs =>
      rw [hadd] at hsame hresult
      obtain rfl := (hresult.resolve_left fun ⟨_, hstatus, _⟩ => nomatch hstatus).2
      refine .joined hkey fun j r => ?_
      rw [hsame]
      exact World.joined_of_addTrace hadd j r
    | error e =>
      rw [hadd] at hsame hresult
      obtain ⟨message, -, rfl⟩ := hresult.resolve_right fun ⟨hstatus, _⟩ => hstatus rfl
      refine .refused hkey hadd fun j => ?_
      rw [hsame]
      exact World.apply_withInterpreter (·.vars) rfl j

end Registering

end Bridge

/-- **Traces are installed once.**  Whatever calls the host makes one after the other and
however calls lead into each other, as long as traces are installed by the bridge, and none
of the client and the flags that an unset in progress still holds for the same variable or
element: no variable and no element ever carries two traces of one client and the same
flags.  Registering comes to an end everywhere, and it adds the trace of a function unless
that very trace is there, for the clients of different functions are different. -/
theorem Machine.Occurs.distinct_traces {w₀ : World} (h₀ : w₀.Distinct) {root : Call}
    {m : Machine root} (hm : m.Occurs tracing Scenario.handle w₀) :
    m.world.Distinct ∧
      (∀ h i name key flags function, Bridge.live? m.world h = some i →
        (∃ result w', Program.Runs Scenario.handle (Bridge.traceVar h name key flags function)
          m.world result w') ∧
        ∀ result w', Program.Runs Scenario.handle (Bridge.traceVar h name key flags function)
            m.world result w' →
          m.world.Registers i (VarRef.resolve name key) (Bridge.traceOf h flags function) result
              w' ∧ w'.Distinct) ∧
      ∀ f g, Bridge.clientName f = Bridge.clientName g → f = g := by
  have hw : m.world.Distinct := hm.invariant Tracing.holds Tracing.between
    (fun _ _ _ _ hw hchange => hchange hw) h₀
  refine ⟨hw, fun h i name key flags function hi => ?_, fun f g => Bridge.eq_of_clientName_eq⟩
  refine ⟨Bridge.exists_runs_traceVar hi .., fun result w' hr => ?_⟩
  have hregisters := Bridge.registers_of_runs hi hr
  exact ⟨hregisters, hregisters.distinct hw⟩

/-! ### Traces that are installed during an unset -/

theorem World.keysOn_bridged (n i : Nat) (r : VarRef) : (World.bridged n).keysOn i r = [] := by
  rw [World.keysOn, World.vars_bridged, Variables.tracesOn_eq, Std.ExtTreeMap.getElem?_empty]
  rfl

/-- A world with an element that has a value, where the host has a function that makes two
others traces and unsets the element.  The one that is called registers a third function on
the element. -/
def World.rearmed (third : String) : World :=
  let traced (key : Option String) (function : String) : Action :=
    .step { op := .traceVar "m" "a" key .traceUnsets function }
  { (World.bridged 10).withInterpreter 0 fun s => { s with
      vars := (∅ : Variables).insert "a" {
        content := .array
        elements := (∅ : Std.ExtTreeMap String Element).insert "k" { value := some (.text "v") } } }
    with
    heap := {
      functions := (((Pool.empty.add (.silent "f")).add (.scripted "g"
        (.ofActions · [traced (some "k") third]))).add
        (.scripted "h" (.ofActions · [traced (some "k") "f", traced none "g",
          .step { op := .unsetVar "m" "a" (some "k") .none }]))).add (.silent "e")
      objects := Pool.empty.add (.handle 0) }
    bench := {
      labels := ((((∅ : Std.ExtTreeMap String HostValue).insert "m" (.object 0)).insert "f"
        (.function 0)).insert "g" (.function 1)).insert "e" (.function 3) } }

theorem World.keysOn_rearmed (third : String) (i : Nat) (r : VarRef) :
    (World.rearmed third).keysOn i r = [] := by
  have hinterpreter : (World.rearmed third).interpreter i = ((World.bridged 10).withInterpreter 0
      fun s => { s with vars := (World.rearmed third).interpreter 0 |>.vars }).interpreter i := rfl
  rw [World.keysOn, hinterpreter, World.interpreter_withInterpreter]
  split
  · subst i
    obtain ⟨name, key⟩ := r
    change (Variables.tracesOn ((∅ : Variables).insert "a" _) ⟨name, key⟩).map Trace.key = []
    rw [Variables.tracesOn_insert]
    split
    · cases key with
      | none => rfl
      | some key =>
        dsimp only
        rw [Variable.tracesAt, Std.ExtTreeMap.getElem?_insert, Std.ExtTreeMap.getElem?_empty]
        split <;> rfl
    · rw [Variables.tracesOn_eq, Std.ExtTreeMap.getElem?_empty]
      rfl
  · exact World.keysOn_bridged 10 i r

theorem World.distinct_rearmed (third : String) : (World.rearmed third).Distinct :=
  fun i r => World.keysOn_rearmed third i r ▸ List.nodup_nil

namespace Tracing

/-- Whether it can be seen that nothing is installed that an unset in progress holds. -/
def spares {root : Call} (m : Machine root) : Bool :=
  match m.code with
  | .set w' _ => m.stack.calls.all fun
    | .fire i _ _ _ later => later.all fun x => !x.trace.reinstalls x.flags ||
      (!decide (x.trace.key ∈ w'.keysOn i x.ref) || decide (x.trace.key ∈ m.world.keysOn i x.ref))
    | _ => true
  | .call (.interpreterStep ..) _ => false
  | .call (.fire _ _ r _ _) _ => decide (VarRef.resolve r.name r.key = r)
  | _ => true

theorem leads_of_spares {root : Call} {handler : Machine.Handler} (m m' : Machine root)
    (h : spares m = true) (hstep : m.step handler = .inl m') : m.Leads tracing handler m' := by
  refine ⟨?_, hstep⟩
  unfold Machine.Allowed
  split
  · rename_i w' p hcode
    rw [spares, hcode] at h
    refine .inr fun i r k ⟨x, ⟨c, hc, hx⟩, hk⟩ hin => .inl ?_
    rw [← Stack.calls_eq] at hc
    obtain ⟨j, t, r', flags, later, rfl, rfl, hlater⟩ := Call.mem_remaining hx
    have hspared := List.all_eq_true.1 (List.all_eq_true.1 h _ hc) x hlater
    obtain ⟨htold, rfl, rfl⟩ := hk
    simpa [htold, hin] using hspared
  · rename_i d k hcode
    rw [spares, hcode] at h
    cases d with
    | fire => exact fun _ => of_decide_eq_true h
    | interpreterStep => cases h
    | _ => trivial
  · trivial

end Tracing

/-- While an element is unset, and its trace waits to install itself again, another function
comes to trace it.  Then it carries the two traces, and to register the first function once
more changes nothing. -/
theorem Machine.Occurs.distinct_traces_rearmed : (World.rearmed "e").Distinct ∧
    ∃ m : Machine (.host (.function 2) []),
      m.Occurs tracing Scenario.handle (.rearmed "e") ∧
      m.world.keysOn 0 ⟨"a", some "k"⟩ =
        [(Bridge.traceOf 0 .traceUnsets 0).key, (Bridge.traceOf 0 .traceUnsets 3).key] ∧
      (m.world.interpreter 0).vars.defined ⟨"a", some "k"⟩ = false ∧
      ∃ w', Program.Runs Scenario.handle (Bridge.traceVar 0 "a" (some "k") .traceUnsets 0) m.world
          (.ok ()) w' ∧
        w'.keysOn 0 ⟨"a", some "k"⟩ = m.world.keysOn 0 ⟨"a", some "k"⟩ ∧ w'.Distinct := by
  have hstart : Machine.Occurs tracing Scenario.handle (.rearmed "e")
      (.start Scenario.handle (.host (.function 2) []) (.rearmed "e")) := .start trivial
  have hwalk : (Machine.walk Scenario.handle Tracing.spares 130
      (.start Scenario.handle (.host (.function 2) []) (.rearmed "e"))).map (fun m =>
        (m.world.keysOn 0 ⟨"a", some "k"⟩, (m.world.interpreter 0).vars.defined ⟨"a", some "k"⟩,
          Bridge.live? m.world 0)) =
      some ([(Bridge.traceOf 0 .traceUnsets 0).key, (Bridge.traceOf 0 .traceUnsets 3).key], false,
        some 0) := by
    decide +kernel
  obtain ⟨m, hwalk, hend⟩ := Option.map_eq_some_iff.1 hwalk
  obtain ⟨hkeys, hend⟩ := Prod.mk.inj hend
  obtain ⟨hdefined, hi⟩ := Prod.mk.inj hend
  have hm := hstart.walk Tracing.leads_of_spares hwalk
  obtain ⟨-, hregister, -⟩ := hm.distinct_traces (World.distinct_rearmed "e")
  obtain ⟨⟨result, w', hr⟩, hall⟩ := hregister 0 0 "a" (some "k") .traceUnsets 0 hi
  have hplace : VarRef.resolve "a" (some "k") = ⟨"a", some "k"⟩ := by decide +kernel
  obtain ⟨hregisters, hw'⟩ := hall result w' hr
  rw [hplace] at hregisters
  have hin : (Bridge.traceOf 0 .traceUnsets 0).key ∈ m.world.keysOn 0 ⟨"a", some "k"⟩ := by
    rw [hkeys]
    exact List.mem_cons_self
  cases hregisters with
  | again _ hsame =>
    exact ⟨World.distinct_rearmed "e", m, hm, hkeys, hdefined, w', hr,
      World.keysOn_of_vars (hsame 0) _, hw'⟩
  | joined hkey => exact absurd hin hkey
  | refused hkey => exact absurd hin hkey

/-- A trace that is installed while the same trace waits to install itself again is
installed twice. -/
theorem Tracing.installed_twice : (World.rearmed "f").Distinct ∧
    ∃ result w', Program.Runs Scenario.handle (Scenario.handle (.host (.function 2) []))
      (World.rearmed "f") result w' ∧ ¬w'.Distinct := by
  refine ⟨World.distinct_rearmed "f", ?_⟩
  have houtcome : ((Scenario.outcome 500 (.host (.function 2) []) (.rearmed "f")).bind
      Ending.reply?).map (fun p => p.2.keysOn 0 ⟨"a", some "k"⟩) =
        some [(Bridge.traceOf 0 .traceUnsets 0).key, (Bridge.traceOf 0 .traceUnsets 0).key] := by
    decide +kernel
  obtain ⟨result, w', hruns, hkeys⟩ := Machine.exists_runs_of_run houtcome
  refine ⟨result, w', hruns, fun hw' => ?_⟩
  have hnodup := hw' 0 ⟨"a", some "k"⟩
  rw [hkeys] at hnodup
  exact (List.nodup_cons.1 hnodup).1 List.mem_cons_self

end CommandBridge
