/-
# Monitors

The world tells what is the case, not what has happened.  A monitor watches a run: it has
a state that may change whenever the world changes and that no program knows of, so it
can tell whether something has come to pass and what else has been so ever since.

What calls promise may then depend on the state of the monitor (`Monitor.Contract`).  All
is as with contracts of the world alone: a program abides by a contract if it makes its
calls as the contract demands and changes the world as it allows, whatever the monitor
notes on the way (`Program.Abides`), and if the programs of all calls do so, every watched
machine follows the contract on its whole way (`Machine.Watched.boundary`).

That a certain run is a watched one is found by going along it (`Machine.Watched.walk`).
-/

import CommandBridge.Proofs.Run.Contract

namespace CommandBridge

variable {σ : Type}

/-- Which calls and which changes of the world occur in the runs that are watched, and how
the state of the monitor goes along with the changes.  A call leaves the state as it is. -/
structure Monitor (σ : Type) where
  calls : List Call → Call → σ → World → Prop := fun _ _ _ _ => True
  changes : List Call → Call → σ → World → σ → World → Prop

/-- What holds of the calls in watched runs, each with the calls in progress in which it is
made. -/
structure Monitor.Contract (M : Monitor σ) where
  Pre : List Call → Call → σ → World → Prop
  /-- Relates the state and the world at the start of a call to those at its reply. -/
  Post : List Call → Call → σ → World → σ → World → Prop
  Change : σ → World → σ → World → Prop := fun _ _ _ _ => True

/-! ### Programs -/

namespace Program

variable {M : Monitor σ} {K : M.Contract} {cs : List Call} {c : Call} {α β : Type}

/-- The program of the call `c`, made in the calls `cs`, abides by the contract from a
state and a world on and ends with the postcondition. -/
def Abides (K : M.Contract) (cs : List Call) (c : Call) :
    Program α → (α → σ → World → Prop) → σ → World → Prop
  | .done a, Q, s, w => Q a s w
  | .get k, Q, s, w => (k w).Abides K cs c Q s w
  | .set w' p, Q, s, w => ∀ s', M.changes cs c s w s' w' →
      K.Change s w s' w' ∧ p.Abides K cs c Q s' w'
  | .call d k, Q, s, w => M.calls (c :: cs) d s w → K.Pre (c :: cs) d s w ∧
      ∀ r s' w', K.Post (c :: cs) d s w s' w' → (k r).Abides K cs c Q s' w'
  | .overflow _, _, _, _ => True

theorem Abides.imp {Q R : α → σ → World → Prop} {p : Program α} {s : σ} {w : World}
    (hp : p.Abides K cs c Q s w) (h : ∀ a s w, Q a s w → R a s w) : p.Abides K cs c R s w := by
  induction p generalizing s w with
  | done a => exact h a s w hp
  | get k ih => exact ih w hp
  | set w' p ih => exact fun s' hs => ⟨(hp s' hs).1, ih (hp s' hs).2⟩
  | call d k ih => exact fun hd => ⟨(hp hd).1, fun r s' w' hr => ih r ((hp hd).2 r s' w' hr)⟩
  | overflow o => trivial

theorem Abides.bind {Q : β → σ → World → Prop} {p : Program α} {f : α → Program β} {s : σ}
    {w : World} (hp : p.Abides K cs c (fun a s' w' => (f a).Abides K cs c Q s' w') s w) :
    (p.bind f).Abides K cs c Q s w := by
  induction p generalizing s w with
  | done a => exact hp
  | get k ih => exact ih w hp
  | set w' p ih => exact fun s' hs => ⟨(hp s' hs).1, ih (hp s' hs).2⟩
  | call d k ih => exact fun hd => ⟨(hp hd).1, fun r s' w' hr => ih r ((hp hd).2 r s' w' hr)⟩
  | overflow o => trivial

theorem abides_get_iff {k : World → Program α} {Q : α → σ → World → Prop} {s : σ} {w : World} :
    (get k).Abides K cs c Q s w ↔ (k w).Abides K cs c Q s w :=
  Iff.rfl

theorem abides_reading_iff {f : World → α} {k : α → Program β} {Q : β → σ → World → Prop} {s : σ}
    {w : World} : (reading f >>= k).Abides K cs c Q s w ↔ (k (f w)).Abides K cs c Q s w :=
  Iff.rfl

theorem abides_update_iff {f : World → α × World} {k : α → Program β} {Q : β → σ → World → Prop}
    {s : σ} {w : World} :
    (update f >>= k).Abides K cs c Q s w ↔
      ∀ s', M.changes cs c s w s' (f w).2 → K.Change s w s' (f w).2 ∧
        (k (f w).1).Abides K cs c Q s' (f w).2 :=
  Iff.rfl

/-- The program abides by the contract and leads from one property to another. -/
def Takes (K : M.Contract) (cs : List Call) (c : Call) (I J : σ → World → Prop) (p : Program α) :
    Prop :=
  ∀ s w, I s w → p.Abides K cs c (fun _ s' w' => J s' w') s w

section Takes

variable {I J L : σ → World → Prop}

theorem Takes.pure (a : α) : Takes K cs c I I (Pure.pure a : Program α) :=
  fun _ _ hw => hw

theorem Takes.overflow (o : Integer.Overflow) : Takes K cs c I J (.overflow o : Program α) :=
  fun _ _ _ => trivial

theorem Takes.bind {p : Program α} {f : α → Program β} (hp : Takes K cs c I J p)
    (hf : ∀ a, Takes K cs c J L (f a)) : Takes K cs c I L (p >>= f) :=
  fun s w hw => Abides.bind ((hp s w hw).imp fun a s' w' hw' => hf a s' w' hw')

theorem Takes.get {k : World → Program α} (hk : ∀ w, Takes K cs c I J (k w)) :
    Takes K cs c I J (.get k) :=
  fun s w hw => hk w s w hw

theorem Takes.update {f : World → α × World}
    (hf : ∀ s w s', I s w → M.changes cs c s w s' (f w).2 →
      K.Change s w s' (f w).2 ∧ J s' (f w).2) : Takes K cs c I J (Program.update f) :=
  fun s w hw s' hs => hf s w s' hw hs

theorem Takes.request {d : Call}
    (hd : ∀ s w, I s w → M.calls (c :: cs) d s w → K.Pre (c :: cs) d s w ∧
      ∀ s' w', K.Post (c :: cs) d s w s' w' → J s' w') :
    Takes K cs c I J (Program.request d) :=
  fun s w hw hs => ⟨(hd s w hw hs).1, fun _ s' w' hr => (hd s w hw hs).2 s' w' hr⟩

theorem Takes.each {f : α → Program Unit} {as : List α} (hf : ∀ a ∈ as, Takes K cs c I I (f a)) :
    Takes K cs c I I (Program.each f as) := by
  induction as with
  | nil => exact .pure ()
  | cons a r ih =>
    exact .bind (hf a List.mem_cons_self) fun _ => ih fun b hb => hf b (List.mem_cons_of_mem _ hb)

theorem Takes.eachWithRest {f : α → List α → Program Unit} {as : List α}
    (hf : ∀ a ∈ as, ∀ rest, Takes K cs c I I (f a rest)) :
    Takes K cs c I I (Program.eachWithRest f as) := by
  induction as with
  | nil => exact .pure ()
  | cons a r ih =>
    exact .bind (hf a List.mem_cons_self r) fun _ => ih fun b hb => hf b (List.mem_cons_of_mem _ hb)

/-- Programs one after the other that all keep two properties lead from the first to the
second if one of them does. -/
theorem Takes.eachWithRest_of_mem {f : α → List α → Program Unit} {as : List α} {a : α}
    (ha : a ∈ as) (hI : ∀ b ∈ as, ∀ rest, Takes K cs c I I (f b rest))
    (hJ : ∀ b ∈ as, ∀ rest, Takes K cs c J J (f b rest))
    (hf : ∀ rest, Takes K cs c I J (f a rest)) :
    Takes K cs c I J (Program.eachWithRest f as) := by
  induction as with
  | nil => cases ha
  | cons b r ih =>
    have hrest := fun b hb => hJ b (List.mem_cons_of_mem _ hb)
    rcases List.mem_cons.1 ha with rfl | ha
    · exact .bind (hf r) fun _ => .eachWithRest hrest
    · exact .bind (hI b List.mem_cons_self r) fun _ =>
        ih ha (fun b hb => hI b (List.mem_cons_of_mem _ hb)) hrest

end Takes

end Program

/-- The program of every call abides by the contract. -/
def Monitor.Contract.Holds {M : Monitor σ} (K : M.Contract) (handler : Machine.Handler) : Prop :=
  ∀ (cs : List Call) (c : Call) (s : σ) (w : World), M.calls cs c s w → K.Pre cs c s w →
    (handler c).Abides K cs c (fun _ s' w' => K.Post cs c s w s' w') s w

/-! ### Machines -/

/-- The suspended callers abide by the contract from the reply to the current call on,
which started in the state `s` and the world `w`; the outermost call started in `s₀` and
`w₀`. -/
def Stack.AwaitsWith {M : Monitor σ} {root : Call} (K : M.Contract) (s₀ : σ) (w₀ : World) :
    {c : Call} → Stack root c → σ → World → Prop
  | _, .base, s, w => s = s₀ ∧ w = w₀
  | c, @Stack.frame _ d _ k rest, s, w => ∃ s₁ w₁, rest.AwaitsWith K s₀ w₀ s₁ w₁ ∧
      ∀ r s' w', K.Post (d :: rest.callers) c s w s' w' →
        (k r).Abides K rest.callers d (fun _ s'' v => K.Post rest.callers d s₁ w₁ s'' v) s' w'

namespace Machine

variable {M : Monitor σ} {K : M.Contract} {s₀ s s' : σ} {w₀ : World} {handler : Handler}
  {root : Call} {m m' : Machine root}

/-- The machine makes a step that the monitor watches. -/
def LeadsWith (M : Monitor σ) (handler : Handler) (p q : σ × Machine root) : Prop :=
  p.2.step handler = .inl q.2 ∧
    match p.2.code with
    | .set w' _ => M.changes p.2.stack.callers p.2.current p.1 p.2.world q.1 w'
    | .call d _ => q.1 = p.1 ∧ M.calls (p.2.current :: p.2.stack.callers) d p.1 p.2.world
    | _ => q.1 = p.1

/-- The machine and everything that waits for it follow the contract. -/
def FollowsWith (K : M.Contract) (s₀ : σ) (w₀ : World) (s : σ) (m : Machine root) : Prop :=
  ∃ s₁ w₁, m.stack.AwaitsWith K s₀ w₀ s₁ w₁ ∧
    m.code.Abides K m.stack.callers m.current
      (fun _ s' w' => K.Post m.stack.callers m.current s₁ w₁ s' w') s m.world

theorem followsWith_start (hK : K.Holds handler) (hs : M.calls [] root s₀ w₀)
    (hpre : K.Pre [] root s₀ w₀) : FollowsWith K s₀ w₀ s₀ (start handler root w₀) :=
  ⟨s₀, w₀, ⟨rfl, rfl⟩, hK [] root s₀ w₀ hs hpre⟩

theorem FollowsWith.step (hK : K.Holds handler) (hm : FollowsWith K s₀ w₀ s m)
    (h : LeadsWith M handler (s, m) (s', m')) : FollowsWith K s₀ w₀ s' m' := by
  obtain ⟨c, code, stack, w⟩ := m
  obtain ⟨s₁, w₁, hstack, hcode⟩ := hm
  obtain ⟨hstep, hwatched⟩ := h
  cases code with
  | done a =>
    obtain rfl : s' = s := hwatched
    cases stack with
    | base => cases hstep
    | frame _ k rest =>
      obtain rfl := Sum.inl.inj hstep
      obtain ⟨s₂, w₂, hrest, hk⟩ := hstack
      exact ⟨s₂, w₂, hrest, hk a s' w hcode⟩
  | get k =>
    obtain rfl : s' = s := hwatched
    obtain rfl := Sum.inl.inj hstep
    exact ⟨s₁, w₁, hstack, hcode⟩
  | set w' p =>
    obtain rfl := Sum.inl.inj hstep
    exact ⟨s₁, w₁, hstack, (hcode s' hwatched).2⟩
  | call d k =>
    obtain ⟨rfl, hallowed⟩ := hwatched
    obtain rfl := Sum.inl.inj hstep
    obtain ⟨hpre, hk⟩ := hcode hallowed
    exact ⟨s', w, ⟨s₁, w₁, hstack, hk⟩, hK _ d s' w hallowed hpre⟩
  | overflow o => cases hstep

theorem FollowsWith.steps (hK : K.Holds handler) {p q : σ × Machine root}
    (hm : FollowsWith K s₀ w₀ p.1 p.2)
    (h : Relation.ReflTransGen (LeadsWith M handler) p q) : FollowsWith K s₀ w₀ q.1 q.2 := by
  induction h with
  | refl => exact hm
  | tail _ h ih => exact ih.step hK h

end Machine

/-! ### Sessions -/

/-- The states of the monitor and the worlds between the calls of a host that starts in the
state `s₀` and the world `w₀`. -/
inductive Monitor.Session (M : Monitor σ) (handler : Machine.Handler) (s₀ : σ) (w₀ : World) :
    σ → World → Prop
  | start : Session M handler s₀ w₀ s₀ w₀
  | aside {s : σ} {w w' : World} (h : Session M handler s₀ w₀ s w) (ha : w.Aside w') :
      Session M handler s₀ w₀ s w'
  | call {s s' : σ} {w w' : World} {root : Call} {m : Machine root} {r : root.Reply}
      (h : Session M handler s₀ w₀ s w) (hs : M.calls [] root s w)
      (hm : Relation.ReflTransGen (Machine.LeadsWith M handler) (s, .start handler root w) (s', m))
      (hr : m.step handler = .inr (.reply r w')) : Session M handler s₀ w₀ s' w'

/-- The machine is on its way in a session that starts in the world `w₀` with the monitor in
the state `s₀`, which is now in the state `s`. -/
def Machine.Watched (M : Monitor σ) (handler : Handler) (s₀ : σ) (w₀ : World) {root : Call}
    (s : σ) (m : Machine root) : Prop :=
  ∃ s₁ w₁, M.Session handler s₀ w₀ s₁ w₁ ∧ M.calls [] root s₁ w₁ ∧
    Relation.ReflTransGen (LeadsWith M handler) (s₁, .start handler root w₁) (s, m)

/-- With the property a call may be made between the calls of a host, and it is there again
when the call has replied. -/
structure Monitor.Contract.Between {M : Monitor σ} (K : M.Contract) (I : σ → World → Prop) :
    Prop where
  pre : ∀ c s w, M.calls [] c s w → I s w → K.Pre [] c s w
  post : ∀ c s w s' w', I s w → K.Post [] c s w s' w' → I s' w'
  aside : ∀ s w w', I s w → w.Aside w' → I s w'

section Session

variable {M : Monitor σ} {K : M.Contract} {handler : Machine.Handler} {s₀ s : σ} {w₀ : World}
  {I : σ → World → Prop} {root : Call} {m : Machine root}

theorem Machine.Watched.start {root : Call} (hs : M.calls [] root s₀ w₀) :
    Machine.Watched M handler s₀ w₀ s₀ (Machine.start handler root w₀) :=
  ⟨s₀, w₀, .start, hs, .refl⟩

theorem Machine.Watched.next (h : Machine.Watched M handler s₀ w₀ s m) {s' : σ}
    {m' : Machine root} (hm : Machine.LeadsWith M handler (s, m) (s', m')) :
    Machine.Watched M handler s₀ w₀ s' m' := by
  obtain ⟨s₁, w₁, hw, hs, hpath⟩ := h
  exact ⟨s₁, w₁, hw, hs, hpath.tail hm⟩

/-- A property that the host leaves alone and that is kept by every call holds between the
calls of a session. -/
theorem Monitor.Session.invariant (hK : K.Holds handler) (hI : K.Between I) (h₀ : I s₀ w₀)
    {w : World} (h : M.Session handler s₀ w₀ s w) : I s w := by
  induction h with
  | start => exact h₀
  | aside _ ha ih => exact hI.aside _ _ _ ih ha
  | @call s s' w w' root m r _ hs hm hr ih =>
    obtain ⟨s₁, w₁, hstack, hcode⟩ :=
      (Machine.followsWith_start hK hs (hI.pre root s w hs ih)).steps hK hm
    obtain ⟨c, code, stack, v⟩ := m
    cases code with
    | done a =>
      cases stack with
      | base =>
        obtain ⟨-, rfl⟩ := Ending.reply.inj (Sum.inr.inj hr)
        obtain ⟨rfl, rfl⟩ := hstack
        exact hI.post _ _ _ _ _ ih hcode
      | frame _ k rest => cases hr
    | get k => cases hr
    | set w' p => cases hr
    | call d k => cases hr
    | overflow o => cases hr

/-- **What a contract promises holds throughout every watched session**: of every call that
is made, of every reply and of every change of the world. -/
theorem Machine.Watched.boundary (hK : K.Holds handler) (hI : K.Between I) (h₀ : I s₀ w₀)
    (h : Machine.Watched M handler s₀ w₀ s m) :
    (∀ d k, m.code = .call d k → M.calls m.stack.calls d s m.world →
        K.Pre m.stack.calls d s m.world) ∧
      (∀ a, m.code = .done a → ∃ s₁ w₁, K.Post m.stack.callers m.current s₁ w₁ s m.world) ∧
      ∀ w' p s', m.code = .set w' p →
        M.changes m.stack.callers m.current s m.world s' w' → K.Change s m.world s' w' := by
  obtain ⟨s₁, w₁, hw, hs, hpath⟩ := h
  have hpre := hI.pre root s₁ w₁ hs (hw.invariant hK hI h₀)
  obtain ⟨s₂, w₂, -, hcode⟩ := (Machine.followsWith_start hK hs hpre).steps hK hpath
  refine ⟨fun d k hd hs => ?_, fun a ha => ?_, fun w' p s' hp hs => ?_⟩
  · dsimp only at hcode
    rw [hd] at hcode
    rw [Stack.calls_eq] at hs ⊢
    exact (hcode hs).1
  · dsimp only at hcode
    rw [ha] at hcode
    exact ⟨s₂, w₂, hcode⟩
  · dsimp only at hcode
    rw [hp] at hcode
    exact (hcode s' hs).1

/-- A step that the monitor watches leaves the world and the state as they are or changes
them as the contract allows. -/
theorem Machine.Watched.change (hK : K.Holds handler) (hI : K.Between I) (h₀ : I s₀ w₀)
    (h : Machine.Watched M handler s₀ w₀ s m) {s' : σ} {m' : Machine root}
    (hm : Machine.LeadsWith M handler (s, m) (s', m')) :
    (s' = s ∧ m'.world = m.world) ∨ K.Change s m.world s' m'.world := by
  have hset := (h.boundary hK hI h₀).2.2
  obtain ⟨hstep, hwatched⟩ := hm
  obtain ⟨c, code, stack, w⟩ := m
  cases code with
  | done a =>
    cases stack with
    | base => cases hstep
    | frame _ k rest =>
      obtain rfl := Sum.inl.inj hstep
      exact .inl ⟨hwatched, rfl⟩
  | get k =>
    obtain rfl := Sum.inl.inj hstep
    exact .inl ⟨hwatched, rfl⟩
  | set w' p =>
    obtain rfl := Sum.inl.inj hstep
    exact .inr (hset w' p s' rfl hwatched)
  | call d k =>
    obtain rfl := Sum.inl.inj hstep
    exact .inl ⟨hwatched.1, rfl⟩
  | overflow o => cases hstep

/-- What holds between the calls and is kept by every change of the world holds all the
way. -/
theorem Machine.Watched.throughout (hK : K.Holds handler) (hI : K.Between I)
    {J : σ → World → Prop} (hIJ : ∀ s w, I s w → J s w)
    (hchange : ∀ s w s' w', J s w → K.Change s w s' w' → J s' w') (h₀ : I s₀ w₀)
    (h : Machine.Watched M handler s₀ w₀ s m) : J s m.world := by
  obtain ⟨s₁, w₁, hw, hs, hpath⟩ := h
  suffices ∀ q : σ × Machine root,
      Relation.ReflTransGen (LeadsWith M handler) (s₁, .start handler root w₁) q →
        J q.1 q.2.world from this _ hpath
  intro q hpath
  induction hpath with
  | refl => exact hIJ _ _ (hw.invariant hK hI h₀)
  | @tail p q hpath hstep ih =>
    rcases Machine.Watched.change hK hI h₀ ⟨s₁, w₁, hw, hs, hpath⟩ hstep with ⟨hs', hw'⟩ | hchanged
    · rwa [hs', hw']
    · exact hchange _ _ _ _ ih hchanged

/-- What every change of the world keeps holds all the way. -/
theorem Machine.Watched.invariant (hK : K.Holds handler) (hI : K.Between I)
    (hchange : ∀ s w s' w', I s w → K.Change s w s' w' → I s' w') (h₀ : I s₀ w₀)
    (h : Machine.Watched M handler s₀ w₀ s m) : I s m.world :=
  h.throughout hK hI (fun _ _ h => h) hchange h₀

/-- When the outermost call replies, the session is between two calls. -/
theorem Machine.Watched.session (h : Machine.Watched M handler s₀ w₀ s m) {r : root.Reply}
    {w : World} (hr : m.step handler = .inr (.reply r w)) : M.Session handler s₀ w₀ s w := by
  obtain ⟨s₁, w₁, hw, hs, hpath⟩ := h
  exact .call hw hs hpath hr

end Session

/-! ### Walks -/

namespace Machine

variable {handler : Handler} {root : Call} {m m' : Machine root} {w₀ : World} {n : Nat}
  {q : Machine root → Bool}

/-- The machine after a number of steps, if those before it pass the check `q`. -/
def walk (handler : Handler) (q : Machine root → Bool) : Nat → Machine root →
    Option (Machine root)
  | 0, m => some m
  | n + 1, m =>
    if q m then
      match m.step handler with
      | .inl m' => walk handler q n m'
      | .inr _ => none
    else none

/-- A relation that the steps of checked machines are in leads to where the walk ends. -/
theorem reflTransGen_of_walk {R : Machine root → Machine root → Prop}
    (hR : ∀ m m', q m = true → m.step handler = .inl m' → R m m')
    (h : walk handler q n m = some m') : Relation.ReflTransGen R m m' := by
  induction n generalizing m with
  | zero =>
    obtain rfl := Option.some.inj h
    exact .refl
  | succ n ih =>
    rw [walk] at h
    split at h
    · rename_i hcheck
      split at h
      · rename_i hstep
        exact .head (hR _ _ hcheck hstep) (ih h)
      · cases h
    · cases h

/-- Where everything is in scope every step is one of the run. -/
theorem leads_of_step (h : m.step handler = .inl m') : m.Leads {} handler m' := by
  refine ⟨?_, h⟩
  unfold Allowed
  split <;> trivial

/-- A step on which the monitor may stay in its state is watched. -/
theorem leadsWith_self {M : Monitor σ} {s : σ} (hstep : m.step handler = .inl m')
    (hset : ∀ w' p, m.code = .set w' p → M.changes m.stack.callers m.current s m.world s w')
    (hcall : ∀ d k, m.code = .call d k → M.calls (m.current :: m.stack.callers) d s m.world) :
    LeadsWith M handler (s, m) (s, m') := by
  refine ⟨hstep, ?_⟩
  dsimp only
  cases hcode : m.code with
  | done a => rfl
  | get k => rfl
  | set w' p => exact hset w' p hcode
  | call d k => exact ⟨rfl, hcall d k hcode⟩
  | overflow o => rfl

/-- A walk within a scope stays in the session. -/
theorem Occurs.walk {S : Scope} (h : m.Occurs S handler w₀)
    (hq : ∀ m m', q m = true → m.step handler = .inl m' → m.Leads S handler m')
    (hwalk : walk handler q n m = some m') : m'.Occurs S handler w₀ := by
  obtain ⟨w, hw, hs, hpath⟩ := h
  exact ⟨w, hw, hs, hpath.trans (reflTransGen_of_walk hq hwalk)⟩

/-- A walk on which the monitor may stay in its state is watched. -/
theorem Watched.walk {M : Monitor σ} {s₀ s : σ} (h : m.Watched M handler s₀ w₀ s)
    (hq : ∀ m m', q m = true → m.step handler = .inl m' → LeadsWith M handler (s, m) (s, m'))
    (hwalk : walk handler q n m = some m') : m'.Watched M handler s₀ w₀ s := by
  obtain ⟨s₁, w₁, hw, hs, hpath⟩ := h
  have hrest := reflTransGen_of_walk (R := fun m m' => LeadsWith M handler (s, m) (s, m')) hq hwalk
  exact ⟨s₁, w₁, hw, hs, hpath.trans (hrest.lift (fun m => (s, m)) fun _ _ h => h)⟩

end Machine

end CommandBridge
