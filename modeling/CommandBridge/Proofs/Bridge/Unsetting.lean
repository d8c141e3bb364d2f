/-
# What an unset leaves of a variable

An unset takes a variable away with its elements and fires the unset traces of each, one
group after the other.  The traces of the bridge that ask for unsets install themselves
again when they are told, so that the variable is there again while later groups are still
waiting.  What is built up in this way has traces and no values (`Variables.Emptied`), and
therefore no trace is refused.  In the end the variable and each of its elements carry those
of their traces that ask for unsets (`Interp.unset_whole`), and no function of the host has
been called.

The name of the variable is resolved twice on the way, when it is unset and when a trace
installs itself again.  It may have one pair of colons in front, which does not matter.  If
the variable itself has a name that starts with colons, then its traces come back on another
variable (`Interp.unset_moves`).
-/

import CommandBridge.Proofs.Bridge.Restoration
import CommandBridge.Proofs.Interpreter.Frame
import CommandBridge.Proofs.Run.Nesting

namespace CommandBridge

/-- A name that is resolved to a whole variable means the same when it is resolved again,
unless there are still colons in front. -/
theorem VarRef.resolve_resolved {name v : String} (h : VarRef.resolve name none = ⟨v, none⟩)
    (hv : ¬[':', ':'] <+: v.toList) (key : Option String) : VarRef.resolve v key = ⟨v, key⟩ := by
  have hwhole : splitKey? v.toList = none := by
    rw [resolve.eq_def] at h
    dsimp only at h
    split at h
    · cases h
    · rename_i hsplit
      rwa [(VarRef.mk.inj h).1] at hsplit
  rw [resolve.eq_def, dropMarker?_unmarked hv]
  cases key with
  | none =>
    dsimp only
    rw [Option.getD_none, hwhole]
  | some key => rfl

namespace Variables

variable {vs vs₁ : Variables} {name : String}

/-! ### Whole variables -/

/-- A variable that is there for more than its traces is unset with its elements. -/
theorem exists_detach_whole (h : vs.holds ⟨name, none⟩ = true) :
    ∃ v, vs[name]? = some v ∧ vs.detach ⟨name, none⟩ = .ok (wholeGroups v, vs.erase name) := by
  rw [holds] at h
  dsimp only at h
  cases hv : vs[name]? with
  | none =>
    rw [hv] at h
    cases h
  | some v =>
    rw [hv, Option.map_some, Option.getD_some, Variable.holds] at h
    refine ⟨v, rfl, ?_⟩
    rw [detach, hv]
    dsimp only
    cases hc : v.content with
    | undefined =>
      rw [hc] at h
      cases h
    | scalar | array => rfl

theorem destroyed_of_mem_wholeGroups {v : Variable} {g : UnsetGroup} (hg : g ∈ wholeGroups v) :
    g.destroyed = true := by
  rcases List.mem_append.1 hg with hg | hg
  · obtain ⟨p, -, rfl⟩ := List.mem_map.1 hg
    rfl
  · obtain rfl := List.mem_singleton.1 hg
    rfl

/-! ### Variables without values -/

/-- There are no values left in the variable, and all other variables are as before. -/
structure Emptied (vs vs₁ : Variables) (name : String) : Prop where
  others : ∀ n, n ≠ name → vs₁[n]? = vs[n]?
  unscalar : ∀ value, (vs₁[name]?.getD {}).content ≠ .scalar value
  valueless : ∀ (key : String) (e : Element), (vs₁[name]?.getD {}).elements[key]? = some e →
    e.value = none

theorem emptied_erase (vs : Variables) (name : String) : Emptied vs (vs.erase name) name where
  others n hn := by rw [getElem?_erase_name, if_neg (Ne.symm hn)]
  unscalar value := by
    rw [getElem?_erase_name, if_pos rfl]
    exact nofun
  valueless key e he := by
    rw [getElem?_erase_name, if_pos rfl] at he
    exact nomatch Std.ExtTreeMap.getElem?_empty.symm.trans he

/-- A variable is put in the place of one without values. -/
theorem Emptied.insert (h : Emptied vs vs₁ name) {v : Variable}
    (hscalar : ∀ value, v.content ≠ .scalar value)
    (hvalue : ∀ (key : String) (e : Element), v.elements[key]? = some e → e.value = none) :
    Emptied vs (vs₁.insert name v) name where
  others n hn := by rw [getElem?_insert_name, if_neg (Ne.symm hn), h.others n hn]
  unscalar := by rwa [getElem?_insert_name, if_pos rfl]
  valueless := by rwa [getElem?_insert_name, if_pos rfl]

/-- On a variable without values no trace is refused. -/
theorem Emptied.addTrace (h : Emptied vs vs₁ name) (key : Option String) (t : Trace) :
    ∃ vs₂, vs₁.addTrace ⟨name, key⟩ t = .ok vs₂ ∧ Emptied vs vs₂ name := by
  unfold Variables.addTrace
  dsimp only
  split
  · exact ⟨_, rfl, h.insert h.unscalar h.valueless⟩
  · rename_i hcontent
    exact absurd hcontent (h.unscalar _)
  · rename_i key _
    refine ⟨_, rfl, h.insert nofun fun key' e he => ?_⟩
    rw [getElem?_insert_name] at he
    split at he
    · obtain rfl := Option.some.inj he
      cases hold : (vs₁[name]?.getD {}).elements[key]? with
      | none => rfl
      | some e => exact h.valueless key e hold
    · exact h.valueless key' e he

theorem Emptied.defined_eq (h : Emptied vs vs₁ name) (key : Option String) :
    vs₁.defined ⟨name, key⟩ = false := by
  rw [defined, ← readAt_getD]
  dsimp only
  cases hc : (vs₁[name]?.getD {}).content with
  | undefined => rw [Variable.readAt_undefined hc]
  | scalar value => exact absurd hc (h.unscalar value)
  | array =>
    cases key with
    | none => rw [(Variable.readAt_array hc).1]
    | some key =>
      rw [(Variable.readAt_array hc).2]
      cases he : (vs₁[name]?.getD {}).elements[key]? with
      | none => rfl
      | some e =>
        rw [Option.bind_some, h.valueless key e he]
        rfl

end Variables

/-! ### Firing the groups -/

namespace Unsetting

/-- Only traces of the variable and its elements are fired, and each installs itself again. -/
def reinstalling (i : Nat) (name : String) : Program.Demand :=
  fun _ c _ => ∃ key t, c.Reinstates i ⟨name, key⟩ t

/-- The traces of a list that ask for unsets, those that were in front behind the others. -/
def asking (ts : List Trace) : List Trace :=
  (ts.filter (·.flags.contains .traceUnsets)).reverse

variable {i : Nat} {name : String} {vs : Variables} (cs : List (Call × World))

/-- A trace that is told so installs itself again. -/
theorem nests_fire (hname : ∀ key, VarRef.resolve name key = ⟨name, key⟩) (w : World)
    {vs₁ vs₂ : Variables} {key : Option String} {t : Trace} {flags : Flags} (later : List Firing)
    (ht : t.reinstalls flags = true) (hadd : vs₁.addTrace ⟨name, key⟩ t = .ok vs₂) :
    Program.Nests Scenario.handle (reinstalling i name) cs
      (Program.request (.fire i t ⟨name, key⟩ flags later)) (w.withVars i vs₁) none
      (w.withVars i vs₂) := by
  refine .call ⟨key, t, flags, later, rfl, ht⟩ ?_ (.done _ _)
  change Program.Nests _ _ _ (Scenario.fireTrace i t ⟨name, key⟩ flags) _ _ _
  rw [Scenario.fireTrace_of_reinstalls ht, ← w.withVars_withVars i vs₁ vs₂]
  have hinstall : Program.Nests Scenario.handle (reinstalling i name)
      ((.fire i t ⟨name, key⟩ flags later, w.withVars i vs₁) :: cs) (Interp.addTrace i name key t)
      (w.withVars i vs₁) .ok ((w.withVars i vs₁).withVars i vs₂) := by
    refine .get ?_
    dsimp only [Bind.bind, Program.bind]
    rw [hname, w.vars_withVars, hadd]
    exact .get (.set (.done _ _))
  exact hinstall.bind (.done _ _)

/-- The traces of a list install themselves again, one in front of the other. -/
theorem nests_fireAll (hname : ∀ key, VarRef.resolve name key = ⟨name, key⟩) (w : World)
    (key : Option String) {flags : Flags} (others : List Firing) {ts : List Trace}
    (hts : ∀ t ∈ ts, t.reinstalls flags = true) {vs₁ : Variables} (h : vs.Emptied vs₁ name) :
    ∃ vs₂, Program.Nests Scenario.handle (reinstalling i name) cs
        (Interp.fireAll i ⟨name, key⟩ flags others ts)
        (w.withVars i vs₁) () (w.withVars i vs₂) ∧
      vs.Emptied vs₂ name ∧ ∀ r, vs₂.tracesOn r =
        if ⟨name, key⟩ = r then ts.reverse ++ vs₁.tracesOn r else vs₁.tracesOn r := by
  induction ts generalizing vs₁ with
  | nil => exact ⟨vs₁, .done _ _, h, fun r => by rw [List.reverse_nil, List.nil_append, ite_self]⟩
  | cons t ts ih =>
    obtain ⟨vs₂, hadd, h₂⟩ := h.addTrace key t
    obtain ⟨vs₃, hrest, h₃, htraces⟩ := ih (fun t ht => hts t (List.mem_cons_of_mem _ ht)) h₂
    have hfirst := nests_fire (i := i) cs hname w (Interp.firings ⟨name, key⟩ flags ts ++ others)
      (hts t List.mem_cons_self) hadd
    refine ⟨vs₃, (hfirst.bind (.done () _)).bind hrest, h₃, fun r => ?_⟩
    rw [htraces, Variables.tracesOn_addTrace hadd]
    split
    · rename_i hr
      subst hr
      rw [List.reverse_cons, List.append_assoc, List.singleton_append]
    · rfl

/-- The traces of a group that ask for unsets are there again. -/
theorem nests_fireGroup (hname : ∀ key, VarRef.resolve name key = ⟨name, key⟩) (w : World)
    {g : UnsetGroup} (hg : g.destroyed = true) (hquiet : ⟨name, g.key⟩ ∉ (w.interpreter i).active)
    (hts : ∀ t ∈ g.traces, ∃ handle, t.action = .callback handle) (flags : Flags)
    (others : List UnsetGroup) {vs₁ : Variables} (h : vs.Emptied vs₁ name) :
    ∃ vs₂, Program.Nests Scenario.handle (reinstalling i name) cs
        (Interp.fireGroup i name flags.scope g others) (w.withVars i vs₁) ()
        (w.withVars i vs₂) ∧
      vs.Emptied vs₂ name ∧ ∀ key, vs₂.tracesOn ⟨name, key⟩ =
        if g.key = key then asking g.traces ++ vs₁.tracesOn ⟨name, key⟩
        else vs₁.tracesOn ⟨name, key⟩ := by
  have hre : ∀ t ∈ Interp.groupTraces g,
      t.reinstalls (Interp.groupFlags flags.scope g) = true := by
    intro t ht
    obtain ⟨ht, hu⟩ := List.mem_filter.1 ht
    exact Trace.Lasting.reinstalls ⟨hts t ht, hu⟩ hg flags
  let entered := w.withInterpreter i fun s => { s with active := ⟨name, g.key⟩ :: s.active }
  have henter : Program.Nests Scenario.handle (reinstalling i name) cs
      (Interp.enterTraces i ⟨name, g.key⟩) (w.withVars i vs₁) () (entered.withVars i vs₁) := by
    have hworld : (w.withVars i vs₁).withInterpreter i
        (fun s => { s with active := ⟨name, g.key⟩ :: s.active }) = entered.withVars i vs₁ := by
      rw [World.withVars, World.withVars, World.withInterpreter_withInterpreter,
        World.withInterpreter_withInterpreter]
    exact hworld ▸ .get (.set (.done _ _))
  have hleave : ∀ vs₂, Program.Nests Scenario.handle (reinstalling i name) cs
      (Interp.leaveTraces i) (entered.withVars i vs₂) () (w.withVars i vs₂) := fun vs₂ => by
    have hworld : (entered.withVars i vs₂).withInterpreter i
        (fun s => { s with active := s.active.tail }) = w.withVars i vs₂ := by
      rw [World.withVars, World.withVars, World.withInterpreter_withInterpreter,
        World.withInterpreter_withInterpreter]
      rfl
    exact hworld ▸ .get (.set (.done _ _))
  obtain ⟨vs₂, hnests, h₂, htraces⟩ :=
    nests_fireAll (i := i) cs hname entered g.key
      (Interp.groupFirings name flags.scope others) hre h
  refine ⟨vs₂, .get ?_, h₂, fun key => ?_⟩
  · have hactive : ((w.withVars i vs₁).interpreter i).active = (w.interpreter i).active := by
      rw [World.withVars, World.interpreter_withInterpreter_self]
    dsimp only [Bind.bind, Program.bind]
    rw [hactive, if_neg (by rwa [List.contains_iff_mem])]
    exact henter.bind (hnests.bind (hleave vs₂))
  · simp only [htraces, VarRef.mk.injEq, true_and]
    rfl

/-- The groups fire one after the other, each for a place of its own. -/
theorem nests_fireUnset (hname : ∀ key, VarRef.resolve name key = ⟨name, key⟩) (w : World)
    (hquiet : ∀ key, ⟨name, key⟩ ∉ (w.interpreter i).active) (flags : Flags)
    {groups : List UnsetGroup} (hgone : ∀ g ∈ groups, g.destroyed = true)
    (hts : ∀ g ∈ groups, ∀ t ∈ g.traces, ∃ handle, t.action = .callback handle)
    (hapart : groups.Pairwise fun g g' => g.key ≠ g'.key) {vs₁ : Variables}
    (h : vs.Emptied vs₁ name) :
    ∃ vs₂, Program.Nests Scenario.handle (reinstalling i name) cs
        (Interp.fireUnset i name flags.scope groups) (w.withVars i vs₁) () (w.withVars i vs₂) ∧
      vs.Emptied vs₂ name ∧
      (∀ g ∈ groups,
        vs₂.tracesOn ⟨name, g.key⟩ = asking g.traces ++ vs₁.tracesOn ⟨name, g.key⟩) ∧
      ∀ key, (∀ g ∈ groups, g.key ≠ key) → vs₂.tracesOn ⟨name, key⟩ = vs₁.tracesOn ⟨name, key⟩ := by
  induction groups generalizing vs₁ with
  | nil => exact ⟨vs₁, .done _ _, h, nofun, fun _ _ => rfl⟩
  | cons g groups ih =>
    obtain ⟨hfirst, hapart⟩ := List.pairwise_cons.1 hapart
    obtain ⟨vs₂, hn₂, h₂, htraces₂⟩ := nests_fireGroup cs hname w
      (hgone g List.mem_cons_self) (hquiet g.key) (hts g List.mem_cons_self) flags groups h
    obtain ⟨vs₃, hn₃, h₃, hmem₃, hrest₃⟩ := ih
      (fun g' hg' => hgone g' (List.mem_cons_of_mem g hg'))
      (fun g' hg' => hts g' (List.mem_cons_of_mem g hg')) hapart h₂
    refine ⟨vs₃, hn₂.bind hn₃, h₃, fun g' hg' => ?_, fun key hkey => ?_⟩
    · rcases List.mem_cons.1 hg' with rfl | hg'
      · rw [hrest₃ _ fun g'' hg'' => (hfirst g'' hg'').symm, htraces₂, if_pos rfl]
      · rw [hmem₃ g' hg', htraces₂, if_neg (hfirst g' hg')]
    · rw [hrest₃ key fun g' hg' => hkey g' (List.mem_cons_of_mem g hg'), htraces₂,
        if_neg (hkey g List.mem_cons_self)]

end Unsetting

namespace Interp
open Unsetting

variable {w : World} {i : Nat} {name v : String}

/-- **What an unset leaves of the traces of the bridge.**  Take a variable that has a value,
on which no traces are firing and whose traces, those of its elements included, are all of the
bridge.  Unsetting it succeeds, and all that changes is the table of variables.  There is no
value left of the variable and its elements, the variable and each element carry those of their
traces that ask for unsets, and all other variables are as before.  The only calls that are
made are those to the traces that install themselves again.

The name of the variable may be written with colons in front, and has none itself. -/
theorem unset_whole (hname : VarRef.resolve name none = ⟨v, none⟩)
    (hv : ¬[':', ':'] <+: v.toList) (flags : Flags)
    (hvalue : (w.interpreter i).vars.holds ⟨v, none⟩ = true)
    (hquiet : ∀ key, ⟨v, key⟩ ∉ (w.interpreter i).active)
    (htraces : ∀ key, ∀ t ∈ (w.interpreter i).vars.tracesOn ⟨v, key⟩,
      ∃ handle, t.action = .callback handle) :
    ∃ vs, Program.Nests Scenario.handle (reinstalling i v) [] (unset i name none flags) w .ok
        (w.withVars i vs) ∧
      (∀ key, vs.defined ⟨v, key⟩ = false) ∧
      (∀ key, (vs.tracesOn ⟨v, key⟩).Perm
        (((w.interpreter i).vars.tracesOn ⟨v, key⟩).filter (·.flags.contains .traceUnsets))) ∧
      ∀ n, n ≠ v → vs[n]? = (w.interpreter i).vars[n]? := by
  obtain ⟨x, hx, hdetach⟩ := Variables.exists_detach_whole hvalue
  have hold : ∀ key, x.tracesAt key = (w.interpreter i).vars.tracesOn ⟨v, key⟩ := by
    have hold := Variables.tracesAt_getD (w.interpreter i).vars v
    rwa [hx] at hold
  have hgroup : ∀ g ∈ Variables.wholeGroups x,
      g.traces = (w.interpreter i).vars.tracesOn ⟨v, g.key⟩ := fun g hg =>
    (Variables.traces_of_mem_wholeGroups hg).trans (hold g.key)
  obtain ⟨vs, hnests, hemptied, hmem, hrest⟩ := nests_fireUnset (i := i) []
    (VarRef.resolve_resolved hname hv) w hquiet flags
    (fun g hg => Variables.destroyed_of_mem_wholeGroups hg)
    (fun g hg t ht => htraces g.key t (hgroup g hg ▸ ht))
    (Variables.pairwise_key_wholeGroups x) (Variables.emptied_erase (w.interpreter i).vars v)
  have herased : ∀ key, Variables.tracesOn ((w.interpreter i).vars.erase v) ⟨v, key⟩ = [] :=
    fun key => (Variables.tracesOn_erase _ _ _).trans (if_pos rfl)
  refine ⟨vs, ?_, hemptied.defined_eq, fun key => ?_, hemptied.others⟩
  · refine .get (.set ?_)
    dsimp only [Bind.bind, Program.bind]
    rw [hname, hdetach]
    exact hnests.bind (.done _ _)
  · by_cases hkey : ∃ g ∈ Variables.wholeGroups x, g.key = key
    · obtain ⟨g, hg, rfl⟩ := hkey
      rw [hmem g hg, herased, List.append_nil, hgroup g hg]
      exact List.reverse_perm _
    · have hnone : (w.interpreter i).vars.tracesOn ⟨v, key⟩ = [] := by
        refine List.eq_nil_iff_forall_not_mem.2 fun t ht => hkey ?_
        rw [← hold] at ht
        obtain ⟨g, hg, -, hgkey⟩ := Variables.exists_mem_wholeGroups ht
        exact ⟨g, hg, hgkey⟩
      rw [hrest key fun g hg he => hkey ⟨g, hg, he⟩, herased, hnone]
      exact .refl _

end Interp

/-- A world with an array of the given name, which is traced for reads, and one element, which
has a value and is traced for unsets. -/
def World.traced (name : String) : World :=
  (World.bridged 10).withVars 0 ((∅ : Variables).insert name {
    content := .array
    traces := [Bridge.traceOf 0 .traceReads 0]
    elements := (∅ : Std.ExtTreeMap String Element).insert "k" {
      value := some (.text "v")
      traces := [Bridge.traceOf 0 .traceUnsets 0] } })

theorem World.tracesOn_traced (name : String) (key : Option String) :
    ((World.traced name).interpreter 0).vars.tracesOn ⟨name, key⟩ =
      if key = none then [Bridge.traceOf 0 .traceReads 0]
      else if key = some "k" then [Bridge.traceOf 0 .traceUnsets 0] else [] := by
  rw [traced, vars_withVars, Variables.tracesOn_insert, if_pos rfl]
  cases key with
  | none => rfl
  | some key =>
    dsimp only [Variable.tracesAt]
    rw [getElem?_insert_name, Std.ExtTreeMap.getElem?_empty]
    by_cases hkey : "k" = key
    · subst hkey
      rfl
    · rw [if_neg hkey, if_neg nofun, if_neg fun h => hkey (Option.some.inj h).symm]
      rfl

/-- All traces are of the bridge. -/
theorem World.callback_of_mem_traced {name : String} {key : Option String} {t : Trace}
    (ht : t ∈ ((World.traced name).interpreter 0).vars.tracesOn ⟨name, key⟩) :
    ∃ handle, t.action = .callback handle := by
  rw [tracesOn_traced] at ht
  split at ht
  · exact ⟨0, by rw [List.mem_singleton.1 ht]; rfl⟩
  · split at ht
    · exact ⟨0, by rw [List.mem_singleton.1 ht]; rfl⟩
    · cases ht

namespace Interp

/-- Of an array the trace on its element is left. -/
theorem unset_whole_traced :
    VarRef.resolve "::a" none = ⟨"a", none⟩ ∧ ¬[':', ':'] <+: "a".toList ∧
    ((World.traced "a").interpreter 0).vars.holds ⟨"a", none⟩ = true ∧
    (∀ key, ⟨"a", key⟩ ∉ ((World.traced "a").interpreter 0).active) ∧
    (∀ key, ∀ t ∈ ((World.traced "a").interpreter 0).vars.tracesOn ⟨"a", key⟩,
      ∃ handle, t.action = .callback handle) ∧
    ∃ vs, Program.Nests Scenario.handle (Unsetting.reinstalling 0 "a") []
        (unset 0 "::a" none .none) (World.traced "a") .ok ((World.traced "a").withVars 0 vs) ∧
      vs.defined ⟨"a", some "k"⟩ = false ∧ vs.tracesOn ⟨"a", none⟩ = [] ∧
      vs.tracesOn ⟨"a", some "k"⟩ = [Bridge.traceOf 0 .traceUnsets 0] := by
  have hname : VarRef.resolve "::a" none = ⟨"a", none⟩ := by decide +kernel
  have hmarker : ¬[':', ':'] <+: "a".toList := by decide
  have hvalue : ((World.traced "a").interpreter 0).vars.holds ⟨"a", none⟩ = true := by
    decide +kernel
  have hquiet : ∀ key, ⟨"a", key⟩ ∉ ((World.traced "a").interpreter 0).active :=
    fun _ h => nomatch h
  have htraces : ∀ key, ∀ t ∈ ((World.traced "a").interpreter 0).vars.tracesOn ⟨"a", key⟩,
      ∃ handle, t.action = .callback handle := fun _ _ => World.callback_of_mem_traced
  obtain ⟨vs, hnests, hdefined, hleft, -⟩ :=
    unset_whole hname hmarker .none hvalue hquiet htraces
  have hnone := hleft none
  have helement := hleft (some "k")
  rw [World.tracesOn_traced, if_pos rfl] at hnone
  rw [World.tracesOn_traced, if_neg nofun, if_pos rfl] at helement
  exact ⟨hname, hmarker, hvalue, hquiet, htraces, vs, hnests, hdefined _, hnone.eq_nil,
    List.perm_singleton.1 helement⟩

/-- The traces of a variable whose name starts with colons come back on another one. -/
theorem unset_moves :
    VarRef.resolve "::::a" none = ⟨"::a", none⟩ ∧
    ((World.traced "::a").interpreter 0).vars.holds ⟨"::a", none⟩ = true ∧
    ((World.traced "::a").interpreter 0).active = [] ∧
    (∀ key, ∀ t ∈ ((World.traced "::a").interpreter 0).vars.tracesOn ⟨"::a", key⟩,
      ∃ handle, t.action = .callback handle) ∧
    ((World.traced "::a").interpreter 0).vars.tracesOn ⟨"::a", some "k"⟩ =
      [Bridge.traceOf 0 .traceUnsets 0] ∧
    (Bridge.traceOf 0 .traceUnsets 0).flags.contains .traceUnsets = true ∧
    ∃ w', Program.Runs Scenario.handle (unset 0 "::::a" none .none) (World.traced "::a") .ok w' ∧
      (w'.interpreter 0).vars.tracesOn ⟨"::a", some "k"⟩ = [] ∧
      w'.keysOn 0 ⟨"a", some "k"⟩ = [(Bridge.traceOf 0 .traceUnsets 0).key] := by
  have hname : VarRef.resolve "::::a" none = ⟨"::a", none⟩ := by decide +kernel
  have hvalue : ((World.traced "::a").interpreter 0).vars.holds ⟨"::a", none⟩ = true := by
    decide +kernel
  refine ⟨hname, hvalue, rfl, fun _ _ => World.callback_of_mem_traced,
    (World.tracesOn_traced _ _).trans rfl, by decide +kernel, ?_⟩
  have hunset : (Program.carry Scenario.handle (fun _ _ _ => True) 100 []
      (unset 0 "::::a" none .none) (World.traced "::a")).map (fun o =>
        (o.1, ((o.2.interpreter 0).vars.tracesOn ⟨"::a", some "k"⟩).isEmpty,
          o.2.keysOn 0 ⟨"a", some "k"⟩)) =
        some (.ok, true, [(Bridge.traceOf 0 .traceUnsets 0).key]) := by
    decide +kernel
  obtain ⟨status, w', hnests, hend⟩ := Program.exists_nests_of_carry hunset
  obtain ⟨rfl, hend⟩ := Prod.mk.inj hend
  obtain ⟨hgone, hmoved⟩ := Prod.mk.inj hend
  exact ⟨w', hnests.runs, List.isEmpty_iff.1 hgone, hmoved⟩

end Interp
end CommandBridge
