/-
# Contracts of calls

A contract says for every call what holds of the world when the call is made (`Pre`)
and what it does to the world until it replies (`Post`).  A program meets a contract
if it makes its calls as the contract demands and changes the world as the contract
allows, whatever the calls do within their own contracts (`Program.Meets`).  If the
program of every call meets the contract (`Contract.Holds`), then every machine
follows it on its whole way: at every call that it makes, at every reply and at every
change of the world (`Machine.Occurs.boundary`), however deep the calls are nested
and whether they come to an end or not.

What a contract says of a call may depend on the calls in progress in which it is made:
on how many of them are evaluations, say.  They are listed innermost first, as in
`Stack.calls`.

The runs that are looked at may be restricted to some calls and some changes of the
world (`Scope`).  The host makes one call after the other and does things of its own
in between, which leave the interpreters and what is attached to them as they are
(`World.Aside`); the worlds between its calls are those of a session.
-/

import CommandBridge.Run.Machine
import Mathlib.Logic.Relation

namespace CommandBridge

/-- Which calls and which changes of the world occur in the runs that are looked at.
A change is one that the program of some call makes.  Each call comes with the calls in
progress in which it is made. -/
structure Scope where
  calls : List Call → Call → World → Prop := fun _ _ _ => True
  changes : List Call → Call → World → World → Prop := fun _ _ _ _ => True

/-- What holds of calls within a scope, each with the calls in progress in which it is
made. -/
structure Contract (S : Scope) where
  Pre : List Call → Call → World → Prop
  /-- Relates the world at the start of a call to that at its reply. -/
  Post : List Call → Call → World → World → Prop
  /-- Relates the worlds before and after a change, together with what is left of the
  program. -/
  Change : World → World → ∀ {α : Type}, Program α → Prop
  change_bind : ∀ {w w' : World} {α β : Type} {p : Program α} (f : α → Program β),
    Change w w' p → Change w w' (p.bind f)

/-! ### Programs -/

namespace Program

variable {S : Scope} {K : Contract S} {cs : List Call} {c : Call} {α β : Type}

/-- The program of the call `c`, made in the calls `cs`, meets the contract from a world
on and ends with the postcondition. -/
def Meets (K : Contract S) (cs : List Call) (c : Call) :
    Program α → (α → World → Prop) → World → Prop
  | .done a, Q, w => Q a w
  | .get k, Q, w => (k w).Meets K cs c Q w
  | .set w' p, Q, w => S.changes cs c w w' → K.Change w w' p ∧ p.Meets K cs c Q w'
  | .call d k, Q, w => S.calls (c :: cs) d w → K.Pre (c :: cs) d w ∧
      ∀ r w', K.Post (c :: cs) d w w' → (k r).Meets K cs c Q w'
  | .overflow _, _, _ => True

theorem meets_get_iff {k : World → Program α} {Q : α → World → Prop} {w : World} :
    (get k).Meets K cs c Q w ↔ (k w).Meets K cs c Q w :=
  Iff.rfl

theorem meets_set_iff {w' : World} {p : Program α} {Q : α → World → Prop} {w : World} :
    (set w' p).Meets K cs c Q w ↔
      (S.changes cs c w w' → K.Change w w' p ∧ p.Meets K cs c Q w') :=
  Iff.rfl

theorem meets_reading_iff {f : World → α} {k : α → Program β} {Q : β → World → Prop} {w : World} :
    (reading f >>= k).Meets K cs c Q w ↔ (k (f w)).Meets K cs c Q w :=
  Iff.rfl

theorem meets_update_iff {f : World → α × World} {k : α → Program β} {Q : β → World → Prop}
    {w : World} :
    (update f >>= k).Meets K cs c Q w ↔
      (S.changes cs c w (f w).2 → K.Change w (f w).2 (k (f w).1) ∧
        (k (f w).1).Meets K cs c Q (f w).2) :=
  Iff.rfl

theorem Meets.imp {Q R : α → World → Prop} {p : Program α} {w : World}
    (hp : p.Meets K cs c Q w) (h : ∀ a w, Q a w → R a w) : p.Meets K cs c R w := by
  induction p generalizing w with
  | done a => exact h a w hp
  | get k ih => exact ih w hp
  | set w' p ih => exact fun hs => ⟨(hp hs).1, ih (hp hs).2⟩
  | call d k ih => exact fun hd => ⟨(hp hd).1, fun r w' hr => ih r ((hp hd).2 r w' hr)⟩
  | overflow o => trivial

/-- A sequence meets the contract if its second program does so from wherever the
first one ends. -/
theorem Meets.bind {Q : β → World → Prop} {p : Program α} {f : α → Program β} {w : World}
    (hp : p.Meets K cs c (fun a w' => (f a).Meets K cs c Q w') w) :
    (p.bind f).Meets K cs c Q w := by
  induction p generalizing w with
  | done a => exact hp
  | get k ih => exact ih w hp
  | set w' p ih => exact fun hs => ⟨K.change_bind f (hp hs).1, ih (hp hs).2⟩
  | call d k ih => exact fun hd => ⟨(hp hd).1, fun r w' hr => ih r ((hp hd).2 r w' hr)⟩
  | overflow o => trivial

/-- The program meets the contract and keeps a property of the world. -/
def Keeps (K : Contract S) (cs : List Call) (c : Call) (I : World → Prop) (p : Program α) : Prop :=
  ∀ w, I w → p.Meets K cs c (fun _ w' => I w') w

section Keeps

variable {I : World → Prop}

theorem Keeps.pure (a : α) : Keeps K cs c I (Pure.pure a : Program α) :=
  fun _ hw => hw

/-- A program that breaks off has nothing to keep any more. -/
theorem Keeps.overflow (o : Integer.Overflow) : Keeps K cs c I (.overflow o : Program α) :=
  fun _ _ => trivial

theorem Keeps.bind {p : Program α} {f : α → Program β} (hp : Keeps K cs c I p)
    (hf : ∀ a, Keeps K cs c I (f a)) : Keeps K cs c I (p >>= f) :=
  fun w hw => Meets.bind ((hp w hw).imp fun a w' hw' => hf a w' hw')

theorem Keeps.get {k : World → Program α} (hk : ∀ w, I w → Keeps K cs c I (k w)) :
    Keeps K cs c I (.get k) :=
  fun w hw => hk w hw w hw

theorem Keeps.reading {f : World → α} {k : α → Program β}
    (hk : ∀ w, I w → Keeps K cs c I (k (f w))) : Keeps K cs c I (Program.reading f >>= k) :=
  fun w hw => hk w hw w hw

theorem Keeps.update {f : World → α × World}
    (hf : ∀ w, I w → S.changes cs c w (f w).2 →
      K.Change w (f w).2 (.done (f w).1 : Program α) ∧ I (f w).2) :
    Keeps K cs c I (Program.update f) :=
  fun w hw hs => hf w hw hs

theorem Keeps.request {d : Call}
    (hd : ∀ w, I w → S.calls (c :: cs) d w → K.Pre (c :: cs) d w ∧
      ∀ w', K.Post (c :: cs) d w w' → I w') :
    Keeps K cs c I (Program.request d) :=
  fun w hw hs => ⟨(hd w hw hs).1, fun _ w' hr => (hd w hw hs).2 w' hr⟩

end Keeps

end Program

/-- The program of every call meets the contract. -/
def Contract.Holds {S : Scope} (K : Contract S) (handler : Machine.Handler) : Prop :=
  ∀ (cs : List Call) (c : Call) (w : World), S.calls cs c w → K.Pre cs c w →
    (handler c).Meets K cs c (fun _ w' => K.Post cs c w w') w

/-! ### Machines -/

namespace Stack

variable {S : Scope} {root : Call}

/-- The calls in progress in which the current one was made. -/
def callers : {c : Call} → Stack root c → List Call
  | _, .base => []
  | _, @frame _ caller _ _ rest => caller :: rest.callers

theorem calls_eq : ∀ {c : Call} (stack : Stack root c), stack.calls = c :: stack.callers
  | _, .base => rfl
  | _, .frame callee _ rest => congrArg (callee :: ·) (calls_eq rest)

/-- The suspended callers meet the contract from the reply to the current call on,
which started in the world `w`; the outermost call started in the world `w₀`. -/
def Awaits (K : Contract S) (w₀ : World) : {c : Call} → Stack root c → World → Prop
  | _, .base, w => w = w₀
  | c, @frame _ d _ k rest, w => ∃ w₁, rest.Awaits K w₀ w₁ ∧
      ∀ r w', K.Post (d :: rest.callers) c w w' →
        (k r).Meets K rest.callers d (fun _ v => K.Post rest.callers d w₁ v) w'

end Stack

namespace Machine

variable {S : Scope} {K : Contract S} {w₀ : World} {handler : Handler} {root : Call}

/-- Whether the next step of a machine is within the scope. -/
def Allowed (S : Scope) (m : Machine root) : Prop :=
  match m.code with
  | .set w' _ => S.changes m.stack.callers m.current m.world w'
  | .call d _ => S.calls (m.current :: m.stack.callers) d m.world
  | _ => True

/-- The machine makes a step within the scope. -/
def Leads (S : Scope) (handler : Handler) (m m' : Machine root) : Prop :=
  m.Allowed S ∧ m.step handler = .inl m'

/-- The machine and everything that waits for it follow the contract. -/
def Follows (K : Contract S) (w₀ : World) (m : Machine root) : Prop :=
  ∃ w, m.stack.Awaits K w₀ w ∧
    m.code.Meets K m.stack.callers m.current
      (fun _ w' => K.Post m.stack.callers m.current w w') m.world

theorem follows_start (hK : K.Holds handler) (hs : S.calls [] root w₀) (hpre : K.Pre [] root w₀) :
    Follows K w₀ (start handler root w₀) :=
  ⟨w₀, rfl, hK [] root w₀ hs hpre⟩

/-- One step keeps to the contract. -/
theorem Follows.step (hK : K.Holds handler) {m m' : Machine root} (hm : Follows K w₀ m)
    (h : Leads S handler m m') : Follows K w₀ m' := by
  obtain ⟨c, code, stack, w⟩ := m
  obtain ⟨w₁, hstack, hcode⟩ := hm
  obtain ⟨hallowed, hstep⟩ := h
  cases code with
  | done a =>
    cases stack with
    | base => cases hstep
    | frame _ k rest =>
      obtain rfl := Sum.inl.inj hstep
      obtain ⟨w₂, hrest, hk⟩ := hstack
      exact ⟨w₂, hrest, hk a w hcode⟩
  | get k =>
    obtain rfl := Sum.inl.inj hstep
    exact ⟨w₁, hstack, hcode⟩
  | set w' p =>
    obtain rfl := Sum.inl.inj hstep
    exact ⟨w₁, hstack, (hcode hallowed).2⟩
  | call d k =>
    obtain rfl := Sum.inl.inj hstep
    obtain ⟨hpre, hk⟩ := hcode hallowed
    exact ⟨w, ⟨w₁, hstack, hk⟩, hK _ d w hallowed hpre⟩
  | overflow o => cases hstep

theorem Follows.steps (hK : K.Holds handler) {m m' : Machine root} (hm : Follows K w₀ m)
    (h : Relation.ReflTransGen (Leads S handler) m m') : Follows K w₀ m' := by
  induction h with
  | refl => exact hm
  | tail _ h ih => exact ih.step hK h

end Machine

/-! ### Sessions -/

/-- The first world has become the second one without anything being done to an
interpreter, a handle, a bundle or a guard. -/
structure World.Aside (w w' : World) : Prop where
  interpreters : w'.interpreters = w.interpreters
  handles : w'.handles = w.handles
  bundles : w'.bundles = w.bundles
  guards : w'.bench.guards = w.bench.guards

/-- A world with one new interpreter and a handle on it. -/
def World.bridged (maxNesting : Nat) : World :=
  { interpreters := Pool.empty.add (.new maxNesting)
    handles := Pool.empty.add { interpreter := 0 } }

/-- The worlds between the calls of a host that starts in the world `w₀`. -/
inductive Session (S : Scope) (handler : Machine.Handler) (w₀ : World) : World → Prop
  | start : Session S handler w₀ w₀
  | aside {w w' : World} (h : Session S handler w₀ w) (ha : w.Aside w') : Session S handler w₀ w'
  | call {w w' : World} {root : Call} {m : Machine root} {r : root.Reply}
      (h : Session S handler w₀ w) (hs : S.calls [] root w)
      (hm : Relation.ReflTransGen (Machine.Leads S handler) (.start handler root w) m)
      (hr : m.step handler = .inr (.reply r w')) : Session S handler w₀ w'

/-- The machine is on its way in a session that starts in the world `w₀`. -/
def Machine.Occurs (S : Scope) (handler : Handler) (w₀ : World) {root : Call}
    (m : Machine root) : Prop :=
  ∃ w, Session S handler w₀ w ∧ S.calls [] root w ∧
    Relation.ReflTransGen (Leads S handler) (.start handler root w) m

theorem Machine.Occurs.start {S : Scope} {handler : Handler} {w : World} {root : Call}
    (hs : S.calls [] root w) : (Machine.start handler root w).Occurs S handler w :=
  ⟨w, .start, hs, .refl⟩

theorem Machine.Occurs.next {S : Scope} {handler : Handler} {w₀ : World} {root : Call}
    {m m' : Machine root} (h : m.Occurs S handler w₀) (hm : m.Leads S handler m') :
    m'.Occurs S handler w₀ := by
  obtain ⟨w, hw, hs, hpath⟩ := h
  exact ⟨w, hw, hs, hpath.tail hm⟩

/-- The property is one of the worlds between the calls of a host: with it a call may be
made, and it is there again when the call has replied. -/
structure Contract.Between {S : Scope} (K : Contract S) (I : World → Prop) : Prop where
  pre : ∀ c w, S.calls [] c w → I w → K.Pre [] c w
  post : ∀ c w w', I w → K.Post [] c w w' → I w'
  aside : ∀ w w', I w → w.Aside w' → I w'

section Session

variable {S : Scope} {K : Contract S} {handler : Machine.Handler} {w₀ : World}
  {I : World → Prop}

/-- A property that the host leaves alone and that is kept by every call is one of
all worlds of a session. -/
theorem Session.invariant (hK : K.Holds handler) (hI : K.Between I) (h₀ : I w₀) {w : World}
    (h : Session S handler w₀ w) : I w := by
  induction h with
  | start => exact h₀
  | aside _ ha ih => exact hI.aside _ _ ih ha
  | @call w w' root m r _ hs hm hr ih =>
    obtain ⟨w₁, hstack, hcode⟩ := (Machine.follows_start hK hs (hI.pre root w hs ih)).steps hK hm
    obtain ⟨c, code, stack, v⟩ := m
    cases code with
    | done a =>
      cases stack with
      | base =>
        obtain ⟨-, rfl⟩ := Ending.reply.inj (Sum.inr.inj hr)
        obtain rfl : w₁ = w := hstack
        exact hI.post _ _ _ ih hcode
      | frame _ k rest => cases hr
    | get k => cases hr
    | set w' p => cases hr
    | call d k => cases hr
    | overflow o => cases hr

/-- **What a contract promises holds throughout every session**: of every call that is
made, of every reply and of every change of the world. -/
theorem Machine.Occurs.boundary (hK : K.Holds handler) (hI : K.Between I) (h₀ : I w₀)
    {root : Call} {m : Machine root} (h : m.Occurs S handler w₀) :
    (∀ d k, m.code = .call d k → S.calls m.stack.calls d m.world →
        K.Pre m.stack.calls d m.world) ∧
      (∀ a, m.code = .done a → ∃ w, K.Post m.stack.callers m.current w m.world) ∧
      ∀ w' p, m.code = .set w' p →
        S.changes m.stack.callers m.current m.world w' → K.Change m.world w' p := by
  obtain ⟨w, hw, hs, hm⟩ := h
  have hpre := hI.pre root w hs (hw.invariant hK hI h₀)
  obtain ⟨w₁, -, hcode⟩ := (Machine.follows_start hK hs hpre).steps hK hm
  refine ⟨fun d k hd hs => ?_, fun a ha => ?_, fun w' p hp hs => ?_⟩
  · rw [hd] at hcode
    rw [Stack.calls_eq] at hs ⊢
    exact (hcode hs).1
  · rw [ha] at hcode
    exact ⟨w₁, hcode⟩
  · rw [hp] at hcode
    exact (hcode hs).1

/-- What every change of the world keeps holds of all worlds on the way. -/
theorem Machine.Occurs.invariant (hK : K.Holds handler) (hI : K.Between I)
    (hchange : ∀ (w w' : World) {α : Type} (p : Program α), I w → K.Change w w' p → I w')
    (h₀ : I w₀) {root : Call} {m : Machine root} (h : m.Occurs S handler w₀) : I m.world := by
  obtain ⟨w, hw, hs, hpath⟩ := h
  induction hpath with
  | refl => exact hw.invariant hK hI h₀
  | @tail m m' hpath hstep ih =>
    have hset := (Machine.Occurs.boundary hK hI h₀ ⟨w, hw, hs, hpath⟩).2.2
    obtain ⟨hallowed, hstep⟩ := hstep
    obtain ⟨c, code, stack, v⟩ := m
    cases code with
    | done a =>
      cases stack with
      | base => cases hstep
      | frame _ k rest =>
        obtain rfl := Sum.inl.inj hstep
        exact ih
    | get k =>
      obtain rfl := Sum.inl.inj hstep
      exact ih
    | set w' p =>
      obtain rfl := Sum.inl.inj hstep
      exact hchange _ _ p ih (hset w' p rfl hallowed)
    | call d k =>
      obtain rfl := Sum.inl.inj hstep
      exact ih
    | overflow o => cases hstep

end Session
end CommandBridge
