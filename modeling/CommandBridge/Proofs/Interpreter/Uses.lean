/-
# Who uses an interpreter

An interpreter is used by guards, by bundles that hold values for it and by the
evaluations that are in progress.  At every call that is made anywhere, and at every
reply, the number of its uses is the number of these (`Accounted`), and an interpreter
that is deleted and not used any more has been disposed of.

Uses are counted along the stack of a machine (`Machine.evaluations`): an evaluation is
in progress while its body makes a call.  When its body has ended the use is over, and
the interpreter may be taken down before the evaluation replies; the calls of that
(`Call.takesDown`) do not count.

Raw uses, which belong to nobody, are left out (`guarded`).
-/

import CommandBridge.Proofs.Interpreter.Coarse
import CommandBridge.Proofs.Scenario.Conduct

namespace CommandBridge

/-! ### Counting uses -/

namespace World

/-- The number of bundles that hold values for an interpreter. -/
def bundlesFor (w : World) (i : Nat) : Nat :=
  (List.range w.bundles.next).countP fun b =>
    !(w.bundle b).isTornDown && (w.bundle b).interpreter == i

/-- The number of guards and bundles that use an interpreter. -/
def guardsOn (w : World) (i : Nat) : Nat :=
  w.bench.guards.count i + w.bundlesFor i

/-- One more guard is one more for its interpreter. -/
theorem count_cons_guard (i j : Nat) (guards : List Nat) :
    (j :: guards).count i = guards.count i + if j = i then 1 else 0 := by
  rw [List.count_cons]
  congr 1
  by_cases hj : j = i <;> simp [hj]

/-- Of the first numbers one more has the first property if the two differ in one
of them. -/
theorem countP_range_of_flip {p q : Nat → Bool} {n id : Nat} (hid : id < n) (hp : p id = true)
    (hq : q id = false) (hpq : ∀ k, k ≠ id → q k = p k) :
    (List.range n).countP p = (List.range n).countP q + 1 := by
  induction n with
  | zero => exact absurd hid id.not_lt_zero
  | succ n ih =>
    rw [List.range_succ, List.countP_append, List.countP_append, List.countP_singleton,
      List.countP_singleton]
    rcases Nat.lt_succ_iff_lt_or_eq.1 hid with hlt | rfl
    · rw [ih hlt, hpq n (Nat.ne_of_gt hlt)]
      omega
    · have hsame : (List.range id).countP p = (List.range id).countP q :=
        List.countP_congr fun k hk => by rw [hpq k (Nat.ne_of_lt (List.mem_range.1 hk))]
      rw [hsame, hp, hq]
      rfl

theorem bundle_add_of_lt (w : World) (b : Bundle) {k : Nat} (hk : k < w.bundles.next) :
    bundle { w with bundles := w.bundles.add b } k = w.bundle k := by
  rw [bundle, Pool.get, Pool.get?_add, if_neg (Nat.ne_of_gt hk)]
  rfl

theorem bundle_add_next (w : World) (b : Bundle) :
    bundle { w with bundles := w.bundles.add b } w.bundles.next = b :=
  Pool.get_add_next _ _

theorem bundle_put (w : World) (id : Nat) (b : Bundle) (k : Nat) :
    bundle { w with bundles := w.bundles.put id b } k = if id = k then b else w.bundle k :=
  Pool.get_put _ _ _ _

/-- A new bundle that holds values is one more for its interpreter. -/
theorem bundlesFor_add (w : World) (i j : Nat) (values : List Value) :
    bundlesFor { w with bundles := w.bundles.add { interpreter := j, values := some values } } i =
      w.bundlesFor i + if j = i then 1 else 0 := by
  rw [bundlesFor, bundlesFor]
  change List.countP _ (List.range (w.bundles.next + 1)) = _
  rw [List.range_succ, List.countP_append, List.countP_singleton, bundle_add_next]
  congr 1
  · refine List.countP_congr fun k hk => ?_
    rw [bundle_add_of_lt w _ (List.mem_range.1 hk)]
  · by_cases hji : j = i <;> simp [Bundle.isTornDown, hji]

/-- A bundle that is torn down is one less for its interpreter. -/
theorem bundlesFor_put {w : World} {id : Nat} (hid : (w.bundle id).isTornDown = false) (i : Nat)
    {b : Bundle} (hb : b.isTornDown = true) :
    w.bundlesFor i = bundlesFor { w with bundles := w.bundles.put id b } i +
      if (w.bundle id).interpreter = i then 1 else 0 := by
  have hlt : id < w.bundles.next := by
    refine Nat.lt_of_not_le fun hle => ?_
    have hget : w.bundle id = {} := by
      rw [bundle, Pool.get, Pool.get?_of_next_le hle]
      rfl
    rw [hget] at hid
    cases hid
  have hnext : (w.bundles.put id b).next = w.bundles.next := Nat.max_eq_left hlt
  rw [bundlesFor, bundlesFor]
  dsimp only
  rw [hnext]
  by_cases hi : (w.bundle id).interpreter = i
  · rw [if_pos hi]
    refine countP_range_of_flip hlt (by simp [hid, hi]) ?_ fun k hk => ?_
    · rw [bundle_put, if_pos rfl, hb]
      rfl
    · rw [bundle_put, if_neg hk.symm]
  · rw [if_neg hi, Nat.add_zero]
    refine List.countP_congr fun k _ => ?_
    rw [bundle_put]
    split
    · subst k
      simp [hi, hb]
    · rfl

/-- The two worlds agree on how an interpreter is used and whether it is still
there. -/
structure SameUse (i : Nat) (w w' : World) : Prop where
  preserved : (w'.interpreter i).preserved = (w.interpreter i).preserved
  deleted : (w'.interpreter i).deleted = (w.interpreter i).deleted
  disposed : (w'.interpreter i).disposed = (w.interpreter i).disposed
  guards : w'.guardsOn i = w.guardsOn i

theorem Alike.sameUse {w w' : World} (h : w.Alike w') (i : Nat) : SameUse i w w' := by
  refine ⟨h.preserved i, h.deleted i, h.disposed i, ?_⟩
  rw [guardsOn, guardsOn, bundlesFor, bundlesFor, h.guards, h.bundles]
  dsimp only [bundle]
  rw [h.bundles]

/-- A change of an interpreter that leaves its uses alone. -/
theorem sameUse_withInterpreter (w : World) (i j : Nat) {f : Interpreter → Interpreter}
    (hp : (f (w.interpreter j)).preserved = (w.interpreter j).preserved)
    (hd : (f (w.interpreter j)).deleted = (w.interpreter j).deleted)
    (hs : (f (w.interpreter j)).disposed = (w.interpreter j).disposed) :
    SameUse i w (w.withInterpreter j f) :=
  ⟨apply_withInterpreter (·.preserved) hp i, apply_withInterpreter (·.deleted) hd i,
    apply_withInterpreter (·.disposed) hs i, rfl⟩

theorem sameUse_withInterpreter_of_ne (w : World) {i j : Nat} (hj : j ≠ i)
    (f : Interpreter → Interpreter) : SameUse i w (w.withInterpreter j f) := by
  refine ⟨?_, ?_, ?_, rfl⟩ <;> rw [interpreter_withInterpreter, if_neg hj]

end World

/-! ### Evaluations in progress -/

/-- Whether a call belongs to the taking down of an interpreter. -/
def Call.takesDown : Call → Bool
  | .deleted .. => true
  | .fire _ _ _ flags _ => flags.contains .interpDestroyed
  | _ => false

/-- Counts the first call if it is an evaluation in the interpreter whose body makes
the second one. -/
def Call.evaluates (i : Nat) (caller callee : Call) : Nat :=
  if caller.evaluated? = some i ∧ callee.takesDown = false then 1 else 0

theorem Call.evaluates_of_takesDown {d : Call} (h : d.takesDown = true) (i : Nat)
    (caller : Call) : Call.evaluates i caller d = 0 :=
  if_neg fun hd => by rw [h] at hd; cases hd.2

theorem Call.evaluates_of_ne {caller : Call} {i : Nat} (h : caller.evaluated? ≠ some i)
    (callee : Call) : Call.evaluates i caller callee = 0 :=
  if_neg fun hd => h hd.1

/-- The number of evaluations in an interpreter that wait for calls of their bodies,
where the calls are in progress, innermost first. -/
def Call.evaluations (i : Nat) : List Call → Nat
  | callee :: caller :: cs => Call.evaluations i (caller :: cs) + Call.evaluates i caller callee
  | _ => 0

/-- The number of evaluations in an interpreter that are in progress. -/
def Machine.evaluations (i : Nat) {root : Call} (m : Machine root) : Nat :=
  match m.code with
  | .call d _ => Call.evaluations i (d :: m.stack.calls)
  | _ => Call.evaluations i m.stack.calls

/-- The runs in which every use of an interpreter is that of a guard, a bundle or an
evaluation. -/
def guarded : Scope where
  calls
    | _, .interpreterStep _ .preserve, _ => False
    | _, .interpreterStep _ .release, _ => False
    | _, _, _ => True

/-! ### The contract -/

namespace Uses

variable {i j n e : Nat} {cs : List Call} {c : Call} {α : Type}

/-- An interpreter is used by its guards, its bundles and so many evaluations; it has
been disposed of if it is deleted and not used, and only if it is deleted. -/
structure Accounted (i e : Nat) (w : World) : Prop where
  preserved : (w.interpreter i).preserved = w.guardsOn i + e
  disposed_of_unused : (w.interpreter i).deleted = true → (w.interpreter i).preserved = 0 →
    (w.interpreter i).disposed = true
  deleted_of_disposed : (w.interpreter i).disposed = true → (w.interpreter i).deleted = true

theorem Accounted.of_sameUse {w w' : World} (h : Accounted i e w) (hw : World.SameUse i w w') :
    Accounted i e w' := by
  refine ⟨?_, ?_, ?_⟩
  · rw [hw.preserved, hw.guards, h.preserved]
  · rw [hw.deleted, hw.preserved, hw.disposed]
    exact h.disposed_of_unused
  · rw [hw.deleted, hw.disposed]
    exact h.deleted_of_disposed

/-- The disposal of an interpreter begins with a change of the world: nobody uses the
interpreter and it is deleted. -/
structure Begins (i : Nat) (w w' : World) {α : Type} (p : Program α) : Prop where
  before : (w.interpreter i).disposed = false
  marked : w' = w.withInterpreter i fun s => { s with disposed := true }
  deleted : (w.interpreter i).deleted = true
  unused : (w.interpreter i).preserved = 0
  rest : ∃ q, p = (Interp.takeDown i).bind q

/-- When a call is made and when it replies, an interpreter is used by the evaluations
in progress. -/
def contract (i : Nat) : Contract guarded where
  Pre cs c w := Accounted i (Call.evaluations i (c :: cs)) w
  Post cs c _ w' := Accounted i (Call.evaluations i (c :: cs)) w'
  Change w w' _ p := (w'.interpreter i).disposed = (w.interpreter i).disposed ∨ Begins i w w' p
  change_bind f h := h.imp_right fun hb =>
    { hb with
      rest := hb.rest.imp' (fun q a => (q a).bind f) fun q hq => by rw [hq, Program.bind_bind] }

/-- Programs of the call `c` that keep the interpreter `i` used by `n` evaluations,
when `e` of them were in progress as the call was made. -/
abbrev Keeping (i n e : Nat) (c : Call) : Program.Property :=
  fun _ p => ∀ cs, Call.evaluations i (c :: cs) = e → p.Keeps (contract i) cs c (Accounted i n)

theorem keeping_update {f : World → α × World} (hf : ∀ w, World.SameUse i w (f w).2) :
    Keeping i n e c (Program.update f) :=
  fun _ _ => .update fun w hw _ => ⟨.inl (hf w).disposed, hw.of_sameUse (hf w)⟩

theorem keeping_modify {f : World → World} (hf : ∀ w, World.SameUse i w (f w)) :
    Keeping i n e c (Program.modify f) :=
  keeping_update (f := fun w => ((), f w)) hf

theorem keeping_modifyInterpreter {f : Interpreter → Interpreter}
    (hf : ∀ s, (f s).preserved = s.preserved ∧ (f s).deleted = s.deleted ∧
      (f s).disposed = s.disposed) : Keeping i n e c (Program.modifyInterpreter j f) :=
  keeping_modify fun w =>
    w.sameUse_withInterpreter i j (hf _).1 (hf _).2.1 (hf _).2.2

theorem coarse : Program.Coarse (Keeping i n e c) where
  pure a _ _ := .pure a
  bind hp hf cs he := .bind (hp cs he) fun a => hf a cs he
  get hk cs he := .get fun w _ => hk w cs he
  update hf := keeping_update fun w => (hf w).sameUse i

theorem keeping_request {d : Call} (hd : e + Call.evaluates i c d = n) :
    Keeping i n e c (Program.request d) := by
  rintro cs rfl
  subst hd
  exact .request fun w hw _ => ⟨hw, fun w' hw' => hw'⟩

/-- Deleting makes no other calls than those of the taking down. -/
theorem keeping_runDelete (hn : e = n) (action : Option DeleteAction) :
    Keeping i n e c (Interp.runDelete j action) := by
  cases action with
  | none => exact coarse.pure _
  | some a => exact keeping_request (by rw [Call.evaluates_of_takesDown rfl, hn]; rfl)

theorem keeping_takeDown : Keeping i e e c (Interp.takeDown j) := by
  have hflags : ∀ flags, ((Flags.traceUnsets.union (Flags.interpDestroyed.union .globalOnly)).union
      flags).contains .interpDestroyed = true := fun flags =>
    Flags.contains_union_left (Flags.contains_union_right
      (Flags.contains_union_left (by decide) _) _) flags
  refine coarse.takeDown j (keeping_update fun w => ?_) (keeping_runDelete rfl)
    fun t r flags later => ?_
  · exact w.sameUse_withInterpreter i j (f := fun s => { s with commands := ∅ }) rfl rfl rfl
  · refine keeping_request ?_
    rw [Call.evaluates_of_takesDown (d := .fire j t r _ later) (hflags flags)]
    rfl

/-! ### Disposal, release and deletion -/

/-- The uses are those of guards, bundles and evaluations, but a disposal may be
due. -/
structure Used (i e : Nat) (w : World) : Prop where
  preserved : (w.interpreter i).preserved = w.guardsOn i + e
  deleted_of_disposed : (w.interpreter i).disposed = true → (w.interpreter i).deleted = true

theorem Accounted.used {w : World} (h : Accounted i e w) : Used i e w :=
  ⟨h.preserved, h.deleted_of_disposed⟩

theorem Used.accounted {w : World} (h : Used i e w)
    (hn : ¬ ((w.interpreter i).preserved = 0 ∧ (w.interpreter i).deleted = true)) :
    Accounted i e w :=
  ⟨h.preserved, fun hd hp => absurd ⟨hp, hd⟩ hn, h.deleted_of_disposed⟩

/-- Another interpreter is disposed of. -/
theorem keeping_dispose_of_ne (hj : j ≠ i) : Keeping i e e c (Interp.dispose j) := by
  rw [Interp.dispose_eq]
  refine coarse.get fun w => ?_
  split
  · exact coarse.pure ()
  · exact coarse.bind (keeping_modify fun w => w.sameUse_withInterpreter_of_ne hj _) fun _ =>
      keeping_takeDown

/-- Nobody uses the interpreter and it is deleted: then it may be disposed of. -/
theorem meets_dispose {w : World} (he : Call.evaluations i (c :: cs) = e) (hu : Used i e w)
    (hd : (w.interpreter i).deleted = true) (hp : (w.interpreter i).preserved = 0) :
    (Interp.dispose i).Meets (contract i) cs c (fun _ w' => Accounted i e w') w := by
  rw [Interp.dispose_eq, Program.meets_get_iff]
  split
  · rename_i hdone
    exact ⟨hu.preserved, fun _ _ => hdone, hu.deleted_of_disposed⟩
  · rename_i hdone
    rw [Bool.not_eq_true] at hdone
    have hmark : (w.withInterpreter i fun s => { s with disposed := true }).interpreter i =
        { w.interpreter i with disposed := true } := by
      rw [World.interpreter_withInterpreter_self]
    refine fun _ => ⟨.inr ⟨hdone, rfl, hd, hp, ⟨.done, (Program.bind_done _).symm⟩⟩, ?_⟩
    refine keeping_takeDown cs he _ ⟨?_, fun _ _ => by rw [hmark], fun _ => by rw [hmark]; exact hd⟩
    rw [hmark]
    exact hu.preserved

theorem keeping_release_of_ne (hj : j ≠ i) : Keeping i e e c (Interp.release j) := by
  rw [Interp.release_eq]
  refine coarse.bind (keeping_modify fun w => w.sameUse_withInterpreter_of_ne hj _) fun _ =>
    coarse.get fun w => ?_
  split
  · exact keeping_dispose_of_ne hj
  · exact coarse.pure ()

/-- One use ends. -/
theorem meets_release {w : World} (he : Call.evaluations i (c :: cs) = e)
    (hu : Used i (e + 1) w) :
    (Interp.release i).Meets (contract i) cs c (fun _ w' => Accounted i e w') w := by
  rw [Interp.release_eq, Program.meets_get_iff, Program.meets_set_iff]
  have hless : (w.withInterpreter i fun s =>
      { s with preserved := s.preserved - 1 }).interpreter i =
      { w.interpreter i with preserved := (w.interpreter i).preserved - 1 } := by
    rw [World.interpreter_withInterpreter_self]
  refine fun _ => ⟨.inl (by rw [hless]), ?_⟩
  have hu' : Used i e (w.withInterpreter i fun s => { s with preserved := s.preserved - 1 }) := by
    refine ⟨?_, fun hs => ?_⟩
    · rw [hless]
      change (w.interpreter i).preserved - 1 = w.guardsOn i + e
      rw [hu.preserved, ← Nat.add_assoc, Nat.add_sub_cancel]
    · rw [hless] at hs ⊢
      exact hu.deleted_of_disposed hs
  rw [Program.meets_get_iff]
  split
  · rename_i hdue
    exact meets_dispose he hu' hdue.2 hdue.1
  · rename_i hdue
    exact hu'.accounted hdue

/-- A use that was one more ends. -/
theorem meets_release_counted {w : World} (he : Call.evaluations i (c :: cs) = e)
    (hu : Used i (e + if j = i then 1 else 0) w) (ha : j ≠ i → Accounted i e w) :
    (Interp.release j).Meets (contract i) cs c (fun _ w' => Accounted i e w') w := by
  by_cases hj : j = i
  · subst hj
    rw [if_pos rfl] at hu
    exact meets_release he hu
  · exact keeping_release_of_ne hj cs he w (ha hj)

theorem keeping_delete : Keeping i e e c (Interp.delete j) := by
  rw [Interp.delete_eq]
  by_cases hj : j = i
  · subst hj
    intro cs he w hw
    rw [Program.meets_get_iff]
    split
    · exact hw
    · have hmark : (w.withInterpreter j fun s => { s with deleted := true }).interpreter j =
          { w.interpreter j with deleted := true } := by
        rw [World.interpreter_withInterpreter_self]
      have hu : Used j e (w.withInterpreter j fun s => { s with deleted := true }) := by
        refine ⟨?_, fun _ => by rw [hmark]⟩
        rw [hmark]
        exact hw.preserved
      refine fun _ => ⟨.inl (by rw [hmark]), ?_⟩
      rw [Program.meets_get_iff]
      split
      · rename_i hp
        exact meets_dispose he hu (by rw [hmark]) hp
      · rename_i hp
        exact hu.accounted fun hdue => hp hdue.1
  · refine coarse.get fun w => ?_
    split
    · exact coarse.pure ()
    · refine coarse.bind (keeping_modify fun w => w.sameUse_withInterpreter_of_ne hj _) fun _ =>
        coarse.get fun w => ?_
      split
      · exact keeping_dispose_of_ne hj
      · exact coarse.pure ()

/-! ### Guards, bundles and evaluations -/

theorem keeping_preserve_of_ne (hj : j ≠ i) : Keeping i n e c (Interp.preserve j) :=
  keeping_modify fun w => w.sameUse_withInterpreter_of_ne hj _

/-- What has become one more user of an interpreter preserves it. -/
theorem meets_preserve {w : World}
    (hp : (w.interpreter i).preserved + (if j = i then 1 else 0) = w.guardsOn i + n)
    (hdue : (w.interpreter i).deleted = true → (w.interpreter i).preserved = 0 →
      (w.interpreter i).disposed = true)
    (hs : (w.interpreter i).disposed = true → (w.interpreter i).deleted = true) :
    (Interp.preserve j).Meets (contract i) cs c (fun _ w' => Accounted i n w') w := by
  by_cases hj : j = i
  · subst hj
    rw [if_pos rfl] at hp
    have hmore : (w.withInterpreter j fun s => { s with preserved := s.preserved + 1 }).interpreter
        j = { w.interpreter j with preserved := (w.interpreter j).preserved + 1 } := by
      rw [World.interpreter_withInterpreter_self]
    refine fun _ => ⟨.inl (by rw [hmore]), ⟨?_, fun _ h₀ => ?_, fun hd => ?_⟩⟩
    · rw [hmore]
      exact hp
    · rw [hmore] at h₀
      cases h₀
    · rw [hmore] at hd ⊢
      exact hs hd
  · rw [if_neg hj, Nat.add_zero] at hp
    exact keeping_preserve_of_ne hj cs rfl w ⟨hp, hdue, hs⟩

theorem keeping_addGuard : Keeping i e e c (Scenario.addGuard j) := by
  intro cs he w hw
  refine Program.Meets.bind fun _ => ⟨.inl rfl, ?_⟩
  refine meets_preserve ?_ hw.disposed_of_unused hw.deleted_of_disposed
  change (w.interpreter i).preserved + _ = ((j :: w.bench.guards).count i + w.bundlesFor i) + e
  rw [hw.preserved, World.guardsOn, World.count_cons_guard]
  omega

theorem keeping_dropGuard : Keeping i e e c Scenario.dropGuard := by
  intro cs he w hw
  refine Program.meets_reading_iff.2 ?_
  split
  · exact hw
  · rename_i j rest hguards
    replace hguards : w.bench.guards = j :: rest := hguards
    refine Program.Meets.bind fun _ => ⟨.inl rfl, ?_⟩
    have hp : (w.interpreter i).preserved =
        (rest.count i + w.bundlesFor i) + (e + if j = i then 1 else 0) := by
      rw [hw.preserved, World.guardsOn, hguards, World.count_cons_guard]
      omega
    refine meets_release_counted he ⟨hp, hw.deleted_of_disposed⟩ fun hj => ?_
    rw [if_neg hj, Nat.add_zero] at hp
    exact ⟨hp, hw.disposed_of_unused, hw.deleted_of_disposed⟩

theorem keeping_buildBundle (vs : List HostValue) : Keeping i e e c (Bridge.buildBundle j vs) := by
  unfold Bridge.buildBundle
  split
  · exact coarse.pure _
  · refine coarse.bind (coarse.reading _) fun w => ?_
    split
    · rename_i converted _
      refine fun cs he w hw => Program.Meets.bind fun _ => ⟨.inl rfl, ?_⟩
      have hpreserve : (Interp.preserve j).Meets (contract i) cs c (fun _ w' => Accounted i e w')
          { w with bundles := w.bundles.add { interpreter := j, values := some converted } } := by
        refine meets_preserve ?_ hw.disposed_of_unused hw.deleted_of_disposed
        change (w.interpreter i).preserved + _ = (w.bench.guards.count i + _) + e
        rw [World.bundlesFor_add, hw.preserved, World.guardsOn]
        omega
      have hobject : ∀ o, Keeping i e e c (Bridge.newObject o) := fun o =>
        coarse.aside fun _ => ⟨rfl, rfl, rfl, rfl⟩
      refine Program.Meets.bind (hpreserve.imp fun _ w' hw' => ?_)
      exact coarse.bind (hobject _) (fun _ => coarse.pure _) cs he w' hw'
    · exact coarse.pure _

theorem keeping_teardown (id : Nat) : Keeping i e e c (Bridge.teardown id) := by
  intro cs he w hw
  refine Program.Meets.bind fun _ => ?_
  dsimp only
  split
  · exact ⟨.inl rfl, hw⟩
  · rename_i htorn
    rw [Bool.not_eq_true] at htorn
    have hcount := World.bundlesFor_put htorn i (b := { w.bundle id with values := none }) rfl
    have hp : (w.interpreter i).preserved = (w.bench.guards.count i +
        World.bundlesFor { w with
          bundles := w.bundles.put id { w.bundle id with values := none } } i) +
        (e + if (w.bundle id).interpreter = i then 1 else 0) := by
      rw [hw.preserved, World.guardsOn, hcount]
      omega
    refine ⟨.inl rfl, meets_release_counted he ⟨hp, hw.deleted_of_disposed⟩ fun hj => ?_⟩
    rw [if_neg hj, Nat.add_zero] at hp
    exact ⟨hp, hw.disposed_of_unused, hw.deleted_of_disposed⟩

/-- An evaluation of the interpreter is one more use of it while its body runs. -/
theorem keeping_guarded {body : Program Status}
    (hbody : Keeping i (e + if j = i then 1 else 0) e c body) :
    Keeping i e e c (Interp.guarded j body) := by
  intro cs he w hw
  refine Program.meets_reading_iff.2 ?_
  dsimp only
  split
  · exact (coarse (n := e)).fail j _ cs he w hw
  · rename_i hdel
    refine Program.Meets.bind ((meets_preserve (n := e + if j = i then 1 else 0) ?_
      hw.disposed_of_unused hw.deleted_of_disposed).imp fun _ w₁ hw₁ => ?_)
    · rw [hw.preserved, Nat.add_assoc]
    · refine Program.Meets.bind ((hbody cs he w₁ hw₁).imp fun status w₂ hw₂ => ?_)
      refine Program.meets_reading_iff.2 (Program.Meets.bind ?_)
      refine meets_release_counted he hw₂.used fun hj => ?_
      rw [if_neg hj, Nat.add_zero] at hw₂
      exact hw₂

/-! ### All programs -/

/-- The programs that read variables and invoke commands. -/
theorem basic (hn : ∀ d : Call, d.takesDown = false → e + Call.evaluates i c d = n) :
    Program.Basic (Keeping i n e c) where
  toSequential := coarse.toSequential
  setResult := coarse.setResult
  fireTraces j r _ hop flags := coarse.fireTraces j r _ flags fun t later =>
    keeping_request (hn (.fire j t r _ later) (hop.not_contains flags).1)
  invoke _ _ := keeping_request (hn _ rfl)

theorem keeping_takeCommand (name : String) : Keeping i e e c (Interp.takeCommand j name) :=
  keeping_update fun w => w.sameUse_withInterpreter i j
    (f := fun s => { s with commands := s.commands.erase name }) rfl rfl rfl

theorem keeping_putCommand (name : String) (command : Command) :
    Keeping i e e c (Interp.putCommand j name command) :=
  keeping_modifyInterpreter fun _ => ⟨rfl, rfl, rfl⟩

theorem keeping_createCommand (name : String) (command : Command) :
    Keeping i e e c (Interp.createCommand j name command) :=
  coarse.createCommand (keeping_takeCommand name) (keeping_runDelete rfl)
    (keeping_putCommand name command)

theorem keeping_deleteCommand (name : String) : Keeping i e e c (Interp.deleteCommand j name) :=
  coarse.deleteCommand (keeping_takeCommand name) (keeping_runDelete rfl)

theorem keeping_renameCommand (old new : String) :
    Keeping i e e c (Interp.renameCommand j old new) :=
  coarse.renameCommand (coarse.fail j) (keeping_takeCommand old) (keeping_deleteCommand old)
    (keeping_putCommand new)

/-- A change of a handle has nothing to do with the uses of an interpreter. -/
theorem keeping_withHandle (handle : Nat) (f : Handle → Handle) :
    Keeping i e e c (Program.modify fun w => w.withHandle handle f) :=
  keeping_modify fun _ => ⟨rfl, rfl, rfl, rfl⟩

/-- A new interpreter is not used and has not been used before. -/
theorem keeping_addInterpreter (maxNesting : Nat) :
    Keeping i e e c (Bridge.addInterpreter maxNesting) := by
  refine keeping_update fun w => ?_
  have hadd := w.interpreter_add (.new maxNesting) i
  by_cases hi : w.interpreters.next = i
  · subst hi
    rw [if_pos rfl] at hadd
    refine ⟨?_, ?_, ?_, rfl⟩ <;> rw [w.interpreter_next] <;> dsimp only <;> rw [hadd] <;> rfl
  · rw [if_neg hi] at hadd
    refine ⟨?_, ?_, ?_, rfl⟩ <;> dsimp only <;> rw [hadd]

/-- The programs of all calls but the evaluations of the interpreter. -/
theorem conduct (hc : c.evaluated? ≠ some i) : Program.Conduct (Keeping i e e c) := by
  have hd : ∀ d, Keeping i e e c (Program.request d) := fun d =>
    keeping_request (by rw [Call.evaluates_of_ne hc, Nat.add_zero])
  exact {
    toBasic := basic fun d _ => by rw [Call.evaluates_of_ne hc, Nat.add_zero]
    overflow := fun _ _ _ => .overflow _
    update := coarse.aside
    request := fun _ => hd _
    modifyInterpreter := fun j _ hf => coarse.plain j hf
    store := coarse.store
    unset := fun j name key flags => coarse.unset j name key flags fun _ _ _ _ => hd _
    createCommand := fun _ name _ _ => keeping_createCommand name _
    deleteCommand := fun _ => keeping_deleteCommand
    delete := fun _ => keeping_delete
    buildBundle := fun _ => keeping_buildBundle
    teardown := keeping_teardown
    addInterpreter := keeping_addInterpreter
    addHandle := fun _ _ => keeping_update fun _ => ⟨rfl, rfl, rfl, rfl⟩
    destroy := fun _ => coarse.destroy (keeping_withHandle _ _) fun _ => keeping_delete
    register := fun handle name _ =>
      coarse.register (fun _ => keeping_createCommand name _) (keeping_withHandle handle _)
    traceVar := fun handle name key flags function =>
      coarse.traceVar handle name key flags function (keeping_withHandle handle _)
    untraceVar := fun handle name key flags function =>
      coarse.untraceVar handle name key flags function (keeping_withHandle handle _) }

/-- An evaluation is one more use while its body runs, and none before and after. -/
theorem keeping_evaluation {body : Program Status} (hc : c.evaluated? = some j)
    (hbody : ∀ Ok : Program.Property, Program.Basic Ok → Ok body) :
    Keeping i e e c (Interp.guarded j body) := by
  refine keeping_guarded (hbody _ (basic fun d hd => ?_))
  rw [Call.evaluates, hc]
  by_cases hj : j = i
  · subst hj
    rw [if_pos rfl, if_pos ⟨rfl, hd⟩]
  · rw [if_neg hj, if_neg fun h => hj (Option.some.inj h.1)]

/-- Every call keeps the account of the uses of an interpreter. -/
theorem holds (i : Nat) : (contract i).Holds Scenario.handle := by
  intro cs c w hs hw
  have hcall : ∀ e, Keeping i e e c (Scenario.handle c) := by
    intro e
    cases hc : c.evaluated? with
    | some j =>
      cases c with
      | eval k script =>
        exact keeping_evaluation rfl fun _ hb =>
          hb.bind (hb.setResult k _) fun _ => hb.runScript k _
      | evalWords k words => exact keeping_evaluation rfl fun _ hb => hb.invoke k words
      | _ => cases hc
    | none =>
      have h : Program.Conduct (Keeping i e e c) := conduct (by rw [hc]; exact nofun)
      refine h.handle hc (fun _ _ => keeping_renameCommand)
        (fun j _ _ => ⟨coarse.enterCommand j, coarse.leaveCommand j⟩)
        coarse.addTrace coarse.removeTrace
        (fun _ handle _ _ => keeping_withHandle handle _) (fun _ => keeping_addGuard)
        keeping_dropGuard ?_ ?_
      · rintro j rfl
        exact hs.elim
      · rintro j rfl
        exact hs.elim
  exact hcall _ cs rfl w hw

theorem between : (contract i).Between (Accounted i 0) where
  pre _ _ _ hw := hw
  post _ _ _ _ hw' := hw'
  aside _ _ hw ha := hw.of_sameUse (ha.alike.sameUse i)

end Uses
end CommandBridge
