/-
# Traces in the variable table

Each operation of the variable table is described by what it does to the traces on any
variable or element (`Variables.tracesOn`): writing leaves them alone
(`tracesOn_store`), installing puts one in front (`tracesOn_addTrace`), removing takes at
most one out (`tracesOn_removeTrace`, `tracesOn_removeTrace_eq`) and unsetting takes those
away that it gives back to be fired (`Detached`, `exists_mem_groups`).

Removing a trace is not unsetting: it leaves what a variable is there for besides
(`holds_removeTrace`), and that is what an unset takes away (`holds_detach`).
-/

import CommandBridge.Interpreter.Variables

namespace CommandBridge

/-- What a trace is known by. -/
def Trace.key (t : Trace) : String × Flags := (t.client, t.flags)

/-- The traces of a variable or of one of its elements. -/
def Variable.tracesAt (v : Variable) : Option String → List Trace
  | none => v.traces
  | some key => ((v.elements[key]?).map (·.traces)).getD []

theorem Variable.tracesAt_withContent (v : Variable) (c : Content) (key : Option String) :
    Variable.tracesAt { v with content := c } key = v.tracesAt key := by
  cases key <;> rfl

theorem Variable.tracesAt_of_isVacant {v : Variable} (h : v.isVacant = true)
    (key : Option String) : v.tracesAt key = [] := by
  unfold isVacant at h
  split at h
  · rw [Bool.and_eq_true, List.isEmpty_iff, Std.ExtTreeMap.isEmpty_iff] at h
    cases key with
    | none => exact h.1
    | some key =>
      rw [tracesAt, h.2, Std.ExtTreeMap.getElem?_empty]
      rfl
  · cases h

namespace Variables

variable {vs vs' : Variables} {r : VarRef}

theorem tracesOn_eq (vs : Variables) (r : VarRef) :
    vs.tracesOn r = ((vs[r.name]?).map (·.tracesAt r.key)).getD [] := by
  unfold tracesOn
  cases vs[r.name]? with
  | none => rfl
  | some v => cases r.key <;> rfl

/-- Where there are no variables there are no traces. -/
theorem tracesOn_empty (r : VarRef) : tracesOn ∅ r = [] := by
  rw [tracesOn, Std.ExtTreeMap.getElem?_empty]

/-- The traces that an access fires are on the variable or on the element. -/
theorem mem_tracesFor {vs : Variables} {r : VarRef} {op : Flags} {t : Trace}
    (ht : t ∈ vs.tracesFor r op) : t ∈ vs.tracesOn ⟨r.name, none⟩ ∨ t ∈ vs.tracesOn r := by
  obtain ⟨name, key⟩ := r
  unfold tracesFor at ht
  unfold tracesOn
  dsimp only at ht ⊢
  cases hv : vs[name]? with
  | none =>
    rw [hv] at ht
    cases ht
  | some v =>
    rw [hv] at ht
    rcases List.mem_append.1 (List.mem_filter.1 ht).1 with ht | ht
    · exact .inl ht
    · cases key with
      | none => cases ht
      | some key => exact .inr ht

/-- A variable that is not there has no traces, like a new one. -/
theorem tracesAt_getD (vs : Variables) (name : String) (key : Option String) :
    (vs[name]?.getD {}).tracesAt key = vs.tracesOn ⟨name, key⟩ := by
  rw [tracesOn_eq]
  cases vs[name]? with
  | none =>
    cases key with
    | none => rfl
    | some key =>
      change (((∅ : Std.ExtTreeMap String Element)[key]?).map Element.traces).getD [] = []
      rw [Std.ExtTreeMap.getElem?_empty]
      rfl
  | some v => rfl

theorem tracesOn_insert (vs : Variables) (name : String) (v : Variable) (r : VarRef) :
    Variables.tracesOn (vs.insert name v) r =
      if name = r.name then v.tracesAt r.key else vs.tracesOn r := by
  rw [tracesOn_eq, tracesOn_eq, getElem?_insert_name]
  split <;> rfl

theorem tracesOn_erase (vs : Variables) (name : String) (r : VarRef) :
    Variables.tracesOn (vs.erase name) r = if name = r.name then [] else vs.tracesOn r := by
  rw [tracesOn_eq, tracesOn_eq, getElem?_erase_name]
  split <;> rfl

theorem tracesOn_settle (vs : Variables) (name : String) (v : Variable) (r : VarRef) :
    (vs.settle name v).tracesOn r = if name = r.name then v.tracesAt r.key else vs.tracesOn r := by
  unfold settle
  split
  · rename_i h
    rw [tracesOn_erase, v.tracesAt_of_isVacant h]
  · exact tracesOn_insert vs name v r

theorem tracesAt_insert (v : Variable) (content : Content) (key : String) (e : Element)
    (key' : Option String) :
    Variable.tracesAt { v with content := content, elements := v.elements.insert key e } key' =
      if some key = key' then e.traces else v.tracesAt key' := by
  cases key' with
  | none => rfl
  | some key' =>
    simp only [Variable.tracesAt, getElem?_insert_name, Option.some.injEq]
    split <;> rfl

theorem tracesAt_erase {v : Variable} {key : String} (key' : Option String) :
    Variable.tracesAt { v with elements := v.elements.erase key } key' =
      if some key = key' then [] else v.tracesAt key' := by
  cases key' with
  | none => rfl
  | some key' =>
    simp only [Variable.tracesAt, getElem?_erase_name, Option.some.injEq]
    split <;> rfl

/-- The traces of an element, if there is one. -/
theorem traces_getD (v : Variable) (key : String) :
    (v.elements[key]?.getD {}).traces = v.tracesAt (some key) := by
  rw [Variable.tracesAt]
  cases v.elements[key]? with
  | none => rfl
  | some e => rfl

/-- A variable that is put back with other traces in one place. -/
theorem tracesOn_insert_at {v : Variable} {ts : List Trace} (hat : v.tracesAt r.key = ts)
    (hv : ∀ key, key ≠ r.key → v.tracesAt key = vs.tracesOn ⟨r.name, key⟩) (r' : VarRef) :
    Variables.tracesOn (vs.insert r.name v) r' = if r = r' then ts else vs.tracesOn r' := by
  obtain ⟨name, key⟩ := r
  obtain ⟨name', key'⟩ := r'
  rw [tracesOn_insert]
  dsimp only at hat hv ⊢
  by_cases hname : name = name'
  · subst hname
    rw [if_pos rfl]
    by_cases hkey : key = key'
    · subst hkey
      rw [if_pos rfl, hat]
    · rw [if_neg fun he => hkey (VarRef.mk.inj he).2, hv key' (Ne.symm hkey)]
  · rw [if_neg hname, if_neg fun he => hname (VarRef.mk.inj he).1]

/-- A variable that is put back with the same traces everywhere. -/
theorem tracesOn_insert_same {name : String} {v : Variable}
    (hv : ∀ key, v.tracesAt key = vs.tracesOn ⟨name, key⟩) (r : VarRef) :
    Variables.tracesOn (vs.insert name v) r = vs.tracesOn r := by
  rw [tracesOn_insert]
  split
  · subst name
    exact hv r.key
  · rfl

/-- Writing leaves all traces alone. -/
theorem tracesOn_store {value new : Value} {flags : Flags}
    (h : vs.store r value flags = .ok (new, vs')) (r' : VarRef) :
    vs'.tracesOn r' = vs.tracesOn r' := by
  have hold := tracesAt_getD vs r.name
  have hscalar : ∀ c, Variables.tracesOn
      (vs.insert r.name { vs[r.name]?.getD {} with content := c }) r' = vs.tracesOn r' := fun c =>
    tracesOn_insert_same (fun key => (Variable.tracesAt_withContent _ c key).trans (hold key)) r'
  unfold store at h
  dsimp only at h
  split at h
  · cases h
  · obtain ⟨-, rfl⟩ := Prod.mk.inj (Except.ok.inj h)
    exact hscalar _
  · obtain ⟨-, rfl⟩ := Prod.mk.inj (Except.ok.inj h)
    exact hscalar _
  · cases h
  · rename_i key _ _
    obtain ⟨-, rfl⟩ := Prod.mk.inj (Except.ok.inj h)
    refine tracesOn_insert_same (fun key' => ?_) r'
    rw [tracesAt_insert, ← hold]
    split
    · subst key'
      exact traces_getD _ key
    · rfl

/-- Installing puts a trace in front of the others. -/
theorem tracesOn_addTrace {t : Trace} (h : vs.addTrace r t = .ok vs') (r' : VarRef) :
    vs'.tracesOn r' = if r = r' then t :: vs.tracesOn r else vs.tracesOn r' := by
  have hold := tracesAt_getD vs r.name
  obtain ⟨name, key⟩ := r
  unfold addTrace at h
  dsimp only at h hold
  split at h
  · obtain rfl := Except.ok.inj h
    refine tracesOn_insert_at (r := ⟨name, none⟩) ?_ (fun key hkey => ?_) r'
    · exact congrArg (t :: ·) (hold none)
    · cases key with
      | none => exact absurd rfl hkey
      | some key => exact hold (some key)
  · cases h
  · rename_i key _
    obtain rfl := Except.ok.inj h
    refine tracesOn_insert_at (r := ⟨name, some key⟩) ?_ (fun key' hkey => ?_) r'
    · rw [tracesAt_insert, if_pos rfl, traces_getD, hold]
    · rw [tracesAt_insert, if_neg (Ne.symm hkey), hold]

/-- A variable that is put back, if anything is left of it, with other traces in one place. -/
theorem tracesOn_settle_at {v : Variable} {ts : List Trace} (hat : v.tracesAt r.key = ts)
    (hv : ∀ key, key ≠ r.key → v.tracesAt key = vs.tracesOn ⟨r.name, key⟩) (r' : VarRef) :
    (vs.settle r.name v).tracesOn r' = if r = r' then ts else vs.tracesOn r' :=
  (tracesOn_settle vs r.name v r').trans
    ((tracesOn_insert vs r.name v r').symm.trans (tracesOn_insert_at hat hv r'))

/-- Removing takes the first trace out that is meant. -/
theorem tracesOn_removeTrace_eq (vs : Variables) (r : VarRef) (flags : Flags) (client : String)
    (r' : VarRef) :
    (vs.removeTrace r flags client).2.tracesOn r' =
      if r = r' then (vs.tracesOn r).eraseP (isTraceOf client flags) else vs.tracesOn r' := by
  have hold := tracesAt_getD vs r.name
  have hsame : vs.tracesOn r = (vs.tracesOn r).eraseP (isTraceOf client flags) →
      vs.tracesOn r' =
        if r = r' then (vs.tracesOn r).eraseP (isTraceOf client flags) else vs.tracesOn r' := by
    intro h
    split
    · subst r'
      exact h
    · rfl
  unfold removeTrace
  split
  · rename_i hv
    refine hsame ?_
    rw [tracesOn_eq, hv]
    rfl
  · rename_i v hv
    rw [hv, Option.getD_some] at hold
    obtain ⟨name, key⟩ := r
    dsimp only at hold hv ⊢
    rw [← hold key]
    cases key with
    | none =>
      refine tracesOn_settle_at (r := ⟨name, none⟩) rfl (fun key hkey => ?_) r'
      cases key with
      | none => exact absurd rfl hkey
      | some key => exact hold (some key)
    | some key =>
      dsimp only
      cases he : v.elements[key]? with
      | none =>
        have hnone : v.tracesAt (some key) = [] := by
          rw [Variable.tracesAt, he]
          rfl
        rw [hnone, List.eraseP_nil]
        rw [← hold, hnone, List.eraseP_nil] at hsame
        exact hsame rfl
      | some e =>
        have htraces : v.tracesAt (some key) = e.traces := by
          rw [Variable.tracesAt, he]
          rfl
        dsimp only
        split
        · refine tracesOn_settle_at (r := ⟨name, some key⟩) ?_ (fun key' hkey => ?_) r'
          · rw [htraces]
            split
            · rename_i hleft
              rw [Bool.and_eq_true, List.isEmpty_iff] at hleft
              exact (tracesAt_erase _).trans ((if_pos rfl).trans hleft.2.symm)
            · exact (tracesAt_insert v v.content key _ _).trans (if_pos rfl)
          · rw [← hold]
            split
            · exact (tracesAt_erase _).trans (if_neg hkey.symm)
            · exact (tracesAt_insert v v.content key _ _).trans (if_neg hkey.symm)
        · rename_i hany
          have hno : ∀ t ∈ e.traces, ¬isTraceOf client flags t = true := fun t ht hm =>
            hany (List.any_eq_true.2 ⟨t, ht, hm⟩)
          refine tracesOn_settle_at (r := ⟨name, some key⟩) ?_ (fun key' _ => hold key') r'
          rw [htraces, List.eraseP_of_forall_not hno]

/-- Removing takes at most one trace out. -/
theorem tracesOn_removeTrace (vs : Variables) (r : VarRef) (flags : Flags) (client : String)
    (r' : VarRef) :
    List.Sublist ((vs.removeTrace r flags client).2.tracesOn r') (vs.tracesOn r') := by
  rw [tracesOn_removeTrace_eq]
  split
  · subst r'
    exact List.eraseP_sublist
  · exact List.Sublist.refl _

/-- What an unset does to the table: the groups whose traces are gone hold what was
there, each for a variable or element of its own, and nothing is added anywhere. -/
structure Detached (vs vs' : Variables) (name : String) (groups : List UnsetGroup) : Prop where
  sublist : ∀ r, List.Sublist (vs'.tracesOn r) (vs.tracesOn r)
  traces : ∀ g ∈ groups, g.destroyed = true → g.traces = vs.tracesOn ⟨name, g.key⟩
  gone : ∀ g ∈ groups, g.destroyed = true → vs'.tracesOn ⟨name, g.key⟩ = []
  apart : groups.Pairwise fun g g' => g.destroyed = true → g'.destroyed = true → g.key ≠ g'.key

/-- An element that is taken out of an array takes its traces along. -/
theorem tracesOn_eraseElement {name : String} {v : Variable} (hv : vs[name]? = some v)
    (key : String) (r : VarRef) :
    Variables.tracesOn (vs.insert name { v with elements := v.elements.erase key }) r =
      if ⟨name, some key⟩ = r then [] else vs.tracesOn r := by
  refine tracesOn_insert_at (r := ⟨name, some key⟩) ((tracesAt_erase _).trans (if_pos rfl))
    (fun key' hkey => ((tracesAt_erase _).trans (if_neg hkey.symm)).trans ?_) r
  have hold := tracesAt_getD vs name key'
  rw [hv] at hold
  exact hold

theorem detached_element {key : String} {v : Variable} {value : Value} {traces : List Trace}
    (hv : vs[r.name]? = some v) (he : v.elements[key]? = some ⟨some value, traces⟩) :
    Detached vs (vs.insert r.name { v with elements := v.elements.erase key }) r.name
      [{ key := some key, traces := v.traces, destroyed := false },
        { key := some key, traces := traces, destroyed := true }] := by
  have hold := tracesAt_getD vs r.name
  rw [hv] at hold
  have htraces : traces = vs.tracesOn ⟨r.name, some key⟩ := by
    rw [← hold, Option.getD_some, Variable.tracesAt, he]
    rfl
  have hgone := tracesOn_eraseElement hv key
  refine ⟨fun r' => ?_, fun g hg hd => ?_, fun g hg hd => ?_, ?_⟩
  · rw [hgone]
    split
    · exact List.nil_sublist _
    · exact List.Sublist.refl _
  · rcases List.mem_cons.1 hg with rfl | hg
    · cases hd
    · obtain rfl := List.mem_singleton.1 hg
      exact htraces
  · rcases List.mem_cons.1 hg with rfl | hg
    · cases hd
    · obtain rfl := List.mem_singleton.1 hg
      exact (hgone _).trans (if_pos rfl)
  · exact List.pairwise_pair.2 fun hd => nomatch hd

theorem traces_of_mem_wholeGroups {v : Variable} {g : UnsetGroup} (hg : g ∈ wholeGroups v) :
    g.traces = v.tracesAt g.key := by
  rcases List.mem_append.1 hg with hg | hg
  · obtain ⟨p, hp, rfl⟩ := List.mem_map.1 hg
    have he := Std.ExtTreeMap.mem_toList_iff_getElem?_eq_some.1 (List.mem_filter.1 hp).1
    dsimp only
    rw [Variable.tracesAt, he]
    rfl
  · obtain rfl := List.mem_singleton.1 hg
    rfl

theorem pairwise_key_wholeGroups (v : Variable) :
    (wholeGroups v).Pairwise fun g g' => g.key ≠ g'.key := by
  refine List.pairwise_append.2 ⟨List.pairwise_map.2 ?_, List.pairwise_singleton _ _, ?_⟩
  · refine (Std.ExtTreeMap.distinct_keys_toList.filter _).imp fun hne he => hne ?_
    exact Std.LawfulEqCmp.compare_eq_iff_eq.2 (Option.some.inj he)
  · intro g hg g' hg'
    obtain ⟨p, -, rfl⟩ := List.mem_map.1 hg
    obtain rfl := List.mem_singleton.1 hg'
    exact nofun

theorem detached_whole {v : Variable} (hv : vs[r.name]? = some v) :
    Detached vs (vs.erase r.name) r.name (wholeGroups v) := by
  have hold := tracesAt_getD vs r.name
  rw [hv] at hold
  refine ⟨fun r' => ?_, fun g hg _ => ?_, fun g _ _ => ?_, ?_⟩
  · rw [tracesOn_erase]
    split
    · exact List.nil_sublist _
    · exact List.Sublist.refl _
  · exact (traces_of_mem_wholeGroups hg).trans (hold g.key)
  · rw [tracesOn_erase, if_pos rfl]
  · exact (pairwise_key_wholeGroups v).imp fun hne _ _ => hne

theorem detached {groups : List UnsetGroup} (h : vs.detach r = .ok (groups, vs')) :
    Detached vs vs' r.name groups := by
  unfold detach at h
  split at h
  · cases h
  · rename_i hv
    split at h
    · cases h
    · cases h
    · split at h
      · rename_i he
        obtain ⟨rfl, rfl⟩ := Prod.mk.inj (Except.ok.inj h)
        exact detached_element hv he
      · cases h
    · obtain ⟨rfl, rfl⟩ := Prod.mk.inj (Except.ok.inj h)
      exact detached_whole hv

/-! ### What an unset fires -/

/-- The place that the traces of a group come from. -/
def groupPlace (name : String) (g : UnsetGroup) : VarRef :=
  ⟨name, if g.destroyed then g.key else none⟩

/-- A group holds the traces that were in its place. -/
theorem traces_of_mem_groups {groups : List UnsetGroup} (h : vs.detach r = .ok (groups, vs'))
    {g : UnsetGroup} (hg : g ∈ groups) : g.traces = vs.tracesOn (groupPlace r.name g) := by
  by_cases hd : g.destroyed = true
  · rw [groupPlace, if_pos hd]
    exact (detached h).traces g hg hd
  · rw [groupPlace, if_neg hd]
    have hold := tracesAt_getD vs r.name
    unfold detach at h
    split at h
    · cases h
    · rename_i v hv
      rw [hv, Option.getD_some] at hold
      split at h
      · cases h
      · cases h
      · split at h
        · obtain ⟨rfl, -⟩ := Prod.mk.inj (Except.ok.inj h)
          rcases List.mem_cons.1 hg with rfl | hg
          · exact hold none
          · obtain rfl := List.mem_singleton.1 hg
            exact absurd rfl hd
        · cases h
      · obtain ⟨rfl, -⟩ := Prod.mk.inj (Except.ok.inj h)
        refine absurd ?_ hd
        rcases List.mem_append.1 hg with hg | hg
        · obtain ⟨p, -, rfl⟩ := List.mem_map.1 hg
          rfl
        · obtain rfl := List.mem_singleton.1 hg
          rfl

/-- What a whole variable loses is among its groups. -/
theorem exists_mem_wholeGroups {v : Variable} {key : Option String} {t : Trace}
    (ht : t ∈ v.tracesAt key) :
    ∃ g ∈ wholeGroups v, g.destroyed = true ∧ g.key = key := by
  cases key with
  | none => exact ⟨_, List.mem_append_right _ (List.mem_singleton.2 rfl), rfl, rfl⟩
  | some key =>
    cases he : v.elements[key]? with
    | none =>
      rw [Variable.tracesAt, he] at ht
      exact absurd ht List.not_mem_nil
    | some e =>
      rw [Variable.tracesAt, he] at ht
      have hne : e.traces.isEmpty = false := by
        rw [List.isEmpty_eq_false_iff_exists_mem]
        exact ⟨t, ht⟩
      refine ⟨_, List.mem_append_left _ (List.mem_map.2 ⟨(key, e), List.mem_filter.2
        ⟨Std.ExtTreeMap.mem_toList_iff_getElem?_eq_some.2 he, ?_⟩, rfl⟩), rfl, rfl⟩
      rw [hne, Bool.not_false, Bool.or_true]

/-- A trace that an unset takes away is in the group of its place, to be fired there. -/
theorem exists_mem_groups {groups : List UnsetGroup} (h : vs.detach r = .ok (groups, vs'))
    {r' : VarRef} {t : Trace} (ht : t ∈ vs.tracesOn r') (hgone : t ∉ vs'.tracesOn r') :
    ∃ g ∈ groups, g.destroyed = true ∧ r' = ⟨r.name, g.key⟩ ∧ t ∈ g.traces := by
  suffices ∃ g ∈ groups, g.destroyed = true ∧ r' = ⟨r.name, g.key⟩ by
    obtain ⟨g, hg, hd, rfl⟩ := this
    exact ⟨g, hg, hd, rfl, (detached h).traces g hg hd ▸ ht⟩
  have hold := tracesAt_getD vs r.name
  obtain ⟨name', key'⟩ := r'
  unfold detach at h
  split at h
  · cases h
  · rename_i v hv
    rw [hv, Option.getD_some] at hold
    split at h
    · cases h
    · cases h
    · rename_i key _ _
      split at h
      · obtain ⟨rfl, rfl⟩ := Prod.mk.inj (Except.ok.inj h)
        rw [tracesOn_eraseElement hv] at hgone
        split at hgone
        · rename_i heq
          exact ⟨_, List.mem_cons_of_mem _ List.mem_cons_self, rfl, heq.symm⟩
        · exact absurd ht hgone
      · cases h
    · obtain ⟨rfl, rfl⟩ := Prod.mk.inj (Except.ok.inj h)
      rw [tracesOn_erase] at hgone
      split at hgone
      · rename_i hname
        dsimp only at hname
        subst hname
        rw [← hold] at ht
        obtain ⟨g, hg, hd, hkey⟩ := exists_mem_wholeGroups ht
        exact ⟨g, hg, hd, by rw [hkey]⟩
      · exact absurd ht hgone

/-! ### Tables without traces -/

/-- Nothing is traced. -/
def Untraced (vs : Variables) : Prop :=
  ∀ r, vs.tracesOn r = []

namespace Untraced

theorem tracesFor_eq (h : vs.Untraced) (r : VarRef) (op : Flags) : vs.tracesFor r op = [] := by
  refine List.eq_nil_iff_forall_not_mem.2 fun t ht => ?_
  rcases mem_tracesFor ht with ht | ht
  · rw [h] at ht
    cases ht
  · rw [h] at ht
    cases ht

theorem store (h : vs.Untraced) {value new : Value} {flags : Flags}
    (hstore : vs.store r value flags = .ok (new, vs')) : vs'.Untraced :=
  fun r' => (tracesOn_store hstore r').trans (h r')

theorem detach (h : vs.Untraced) {groups : List UnsetGroup}
    (hdetach : vs.detach r = .ok (groups, vs')) :
    vs'.Untraced ∧ ∀ g ∈ groups, g.traces = [] :=
  ⟨fun r' => List.sublist_nil.1 (h r' ▸ (detached hdetach).sublist r'),
    fun _ hg => (traces_of_mem_groups hdetach hg).trans (h _)⟩

end Untraced

end Variables

/-! ### What a variable is there for -/

/-- Whether a variable or one of its elements is there for more than its traces. -/
def Variable.holds (v : Variable) : Option String → Bool
  | none =>
    match v.content with
    | .undefined => false
    | _ => true
  | some key => ((v.elements[key]?).bind (·.value)).isSome

theorem Variable.holds_of_isVacant {v : Variable} (h : v.isVacant = true) (key : Option String) :
    v.holds key = false := by
  unfold isVacant at h
  split at h
  · rename_i hcontent
    rw [Bool.and_eq_true, List.isEmpty_iff, Std.ExtTreeMap.isEmpty_iff] at h
    cases key with
    | none => rw [holds, hcontent]
    | some key =>
      rw [holds, h.2, Std.ExtTreeMap.getElem?_empty]
      rfl
  · cases h

namespace Variables

variable {vs vs' : Variables} {r : VarRef}

/-- Whether a variable or element is there for more than its traces. -/
def holds (vs : Variables) (r : VarRef) : Bool :=
  ((vs[r.name]?).map (·.holds r.key)).getD false

theorem holds_settle (vs : Variables) (name : String) (v : Variable) (r : VarRef) :
    (vs.settle name v).holds r = if name = r.name then v.holds r.key else vs.holds r := by
  unfold settle
  split
  · rename_i h
    rw [holds, getElem?_erase_name]
    split
    · exact (v.holds_of_isVacant h r.key).symm
    · rfl
  · rw [holds, getElem?_insert_name]
    split <;> rfl

/-- Removing a trace takes nothing away but the trace. -/
theorem holds_removeTrace (vs : Variables) (r : VarRef) (flags : Flags) (client : String)
    (r' : VarRef) : (vs.removeTrace r flags client).2.holds r' = vs.holds r' := by
  have hput : ∀ v v' : Variable, vs[r.name]? = some v → (∀ key, v'.holds key = v.holds key) →
      (vs.settle r.name v').holds r' = vs.holds r' := by
    intro v v' hv hsame
    rw [holds_settle]
    split
    · rename_i hname
      rw [holds, ← hname, hv, hsame]
      rfl
    · rfl
  unfold removeTrace
  split
  · rfl
  · rename_i v hv
    split
    · refine hput v _ hv fun key => ?_
      cases key <;> rfl
    · split
      · rfl
      · rename_i key _ _ e he
        split
        · refine hput v _ hv fun key' => ?_
          cases key' with
          | none => rfl
          | some key' =>
            dsimp only [Variable.holds]
            split
            · rename_i hleft
              rw [Bool.and_eq_true, Option.isNone_iff_eq_none] at hleft
              rw [getElem?_erase_name]
              split
              · subst key'
                rw [he, Option.bind_some, hleft.1, Option.bind_none]
              · rfl
            · rw [getElem?_insert_name]
              split
              · subst key'
                rw [he]
                rfl
              · rfl
        · exact hput v v hv fun _ => rfl

/-- An unset takes away what was there for more than its traces. -/
theorem holds_detach {groups : List UnsetGroup} (h : vs.detach r = .ok (groups, vs')) :
    vs.holds r = true ∧ vs'.holds r = false := by
  unfold detach at h
  split at h
  · cases h
  · rename_i v hv
    rw [holds, hv, holds]
    split at h
    · cases h
    · cases h
    · rename_i hkey
      split at h
      · rename_i he
        obtain ⟨-, rfl⟩ := Prod.mk.inj (Except.ok.inj h)
        rw [hkey, getElem?_insert_name, if_pos rfl]
        dsimp only [Option.map_some, Option.getD_some, Variable.holds]
        rw [he, getElem?_erase_name, if_pos rfl]
        exact ⟨rfl, rfl⟩
      · cases h
    · rename_i hkey hcontent
      obtain ⟨-, rfl⟩ := Prod.mk.inj (Except.ok.inj h)
      rw [hkey, getElem?_erase_name, if_pos rfl]
      refine ⟨?_, rfl⟩
      dsimp only [Option.map_some, Option.getD_some, Variable.holds]
      split
      · rename_i hundefined
        exact absurd hundefined hcontent
      · rfl

/-! ### Counting -/

theorem mem_allTraces_iff {v : Variable} {t : Trace} :
    t ∈ allTraces v ↔ ∃ key, t ∈ v.tracesAt key := by
  rw [allTraces, List.mem_append, List.mem_flatMap]
  constructor
  · rintro (ht | ⟨p, hp, ht⟩)
    · exact ⟨none, ht⟩
    · refine ⟨some p.1, ?_⟩
      rw [Variable.tracesAt, Std.ExtTreeMap.mem_toList_iff_getElem?_eq_some.1 hp]
      exact ht
  · rintro ⟨key, ht⟩
    cases key with
    | none => exact .inl ht
    | some key =>
      cases he : v.elements[key]? with
      | none =>
        rw [Variable.tracesAt, he] at ht
        exact absurd ht List.not_mem_nil
      | some e =>
        rw [Variable.tracesAt, he] at ht
        exact .inr ⟨(key, e), Std.ExtTreeMap.mem_toList_iff_getElem?_eq_some.2 he, ht⟩

/-- The traces on a variable and its elements are all of its traces. -/
theorem mem_getD_allTraces {name : String} {key : Option String} {t : Trace}
    (ht : t ∈ vs.tracesOn ⟨name, key⟩) : t ∈ ((vs[name]?).map allTraces).getD [] := by
  rw [tracesOn_eq] at ht
  dsimp only at ht
  cases hv : vs[name]? with
  | none =>
    rw [hv] at ht
    exact absurd ht List.not_mem_nil
  | some v =>
    rw [hv] at ht
    exact mem_allTraces_iff.2 ⟨key, ht⟩

/-- A client counts if it has a trace anywhere. -/
theorem clientCount_pos_iff {client : String} :
    0 < vs.clientCount client ↔ ∃ r, ∃ t ∈ vs.tracesOn r, t.client = client := by
  rw [clientCount, List.length_pos_iff_exists_mem]
  constructor
  · rintro ⟨t, ht⟩
    obtain ⟨ht, hclient⟩ := List.mem_filter.1 ht
    obtain ⟨p, hp, ht⟩ := List.mem_flatMap.1 ht
    obtain ⟨key, ht⟩ := mem_allTraces_iff.1 ht
    refine ⟨⟨p.1, key⟩, t, ?_, beq_iff_eq.1 hclient⟩
    rw [tracesOn_eq, Std.ExtTreeMap.mem_toList_iff_getElem?_eq_some.1 hp]
    exact ht
  · rintro ⟨r, t, ht, hclient⟩
    rw [tracesOn_eq] at ht
    cases hv : vs[r.name]? with
    | none =>
      rw [hv] at ht
      exact absurd ht List.not_mem_nil
    | some v =>
      rw [hv] at ht
      exact ⟨t, List.mem_filter.2 ⟨List.mem_flatMap.2 ⟨(r.name, v),
        Std.ExtTreeMap.mem_toList_iff_getElem?_eq_some.2 hv, mem_allTraces_iff.2 ⟨r.key, ht⟩⟩,
        beq_iff_eq.2 hclient⟩⟩

end Variables
end CommandBridge
