/-
# Executions without a machine

A machine takes a call apart into small steps and keeps the suspended callers on
a stack.  `Program.Runs` says in one piece what a program leads to: a call runs
the program of its handler first and goes on with the reply.  `Program.Breaks` says
so of the overflow at which a program breaks off.  Both agree with the machine on
every call (`Machine.exists_run_iff`), so what is shown of them by following
the program holds of the machine.

`Program.Always` is a property of all results that a program can have, whatever
the world holds and whatever its calls reply.
-/

import CommandBridge.Run.Machine

namespace CommandBridge
namespace Program

variable {handler : Machine.Handler} {α β : Type}

/-- `Runs handler p w a w'`: with the handler, the program leads from the world
`w` to the result `a` and the world `w'`. -/
inductive Runs (handler : Machine.Handler) :
    {α : Type} → Program α → World → α → World → Prop where
  | done {α : Type} (a : α) (w : World) : Runs handler (.done a) w a w
  | get {α : Type} {k : World → Program α} {w w' : World} {a : α}
      (h : Runs handler (k w) w a w') : Runs handler (.get k) w a w'
  | set {α : Type} {p : Program α} {w₀ w w' : World} {a : α}
      (h : Runs handler p w a w') : Runs handler (.set w p) w₀ a w'
  | call {α : Type} {c : Call} {k : c.Reply → Program α} {w w₁ w' : World} {r : c.Reply} {a : α}
      (hc : Runs handler (handler c) w r w₁) (hk : Runs handler (k r) w₁ a w') :
      Runs handler (.call c k) w a w'

/-- `Breaks handler p w o`: with the handler, the program that starts in the world `w` breaks
off at the overflow `o`. -/
inductive Breaks (handler : Machine.Handler) :
    {α : Type} → Program α → World → Integer.Overflow → Prop where
  | overflow {α : Type} (o : Integer.Overflow) (w : World) :
      Breaks handler (.overflow o : Program α) w o
  | get {α : Type} {k : World → Program α} {w : World} {o : Integer.Overflow}
      (h : Breaks handler (k w) w o) : Breaks handler (.get k) w o
  | set {α : Type} {p : Program α} {w₀ w : World} {o : Integer.Overflow}
      (h : Breaks handler p w o) : Breaks handler (.set w p) w₀ o
  | callee {α : Type} {c : Call} {k : c.Reply → Program α} {w : World} {o : Integer.Overflow}
      (hc : Breaks handler (handler c) w o) : Breaks handler (.call c k) w o
  | caller {α : Type} {c : Call} {k : c.Reply → Program α} {w w₁ : World} {r : c.Reply}
      {o : Integer.Overflow} (hc : Runs handler (handler c) w r w₁)
      (hk : Breaks handler (k r) w₁ o) : Breaks handler (.call c k) w o

/-- With the handler, the program ends so from the world on. -/
def Ends (handler : Machine.Handler) (p : Program α) (w : World) : Ending α → Prop
  | .reply a w' => Runs handler p w a w'
  | .overflow o => Breaks handler p w o

theorem runs_done_iff {a b : α} {w w' : World} :
    Runs handler (.done a) w b w' ↔ b = a ∧ w' = w := by
  constructor
  · intro h
    cases h
    exact ⟨rfl, rfl⟩
  · rintro ⟨rfl, rfl⟩
    exact .done _ _

theorem runs_get_iff {k : World → Program α} {w w' : World} {a : α} :
    Runs handler (.get k) w a w' ↔ Runs handler (k w) w a w' := by
  constructor
  · intro h
    cases h with
    | get h => exact h
  · exact .get

theorem runs_set_iff {p : Program α} {w₀ w w' : World} {a : α} :
    Runs handler (.set w p) w₀ a w' ↔ Runs handler p w a w' := by
  constructor
  · intro h
    cases h with
    | set h => exact h
  · exact .set

theorem runs_call_iff {c : Call} {k : c.Reply → Program α} {w w' : World} {a : α} :
    Runs handler (.call c k) w a w' ↔
      ∃ r w₁, Runs handler (handler c) w r w₁ ∧ Runs handler (k r) w₁ a w' := by
  constructor
  · intro h
    cases h with
    | call hc hk => exact ⟨_, _, hc, hk⟩
  · rintro ⟨r, w₁, hc, hk⟩
    exact .call hc hk

theorem not_runs_overflow {o : Integer.Overflow} {w w' : World} {a : α} :
    ¬Runs handler (.overflow o) w a w' :=
  nofun

theorem not_breaks_done {a : α} {w : World} {o : Integer.Overflow} :
    ¬Breaks handler (.done a) w o :=
  nofun

theorem breaks_overflow_iff {o o' : Integer.Overflow} {w : World} :
    Breaks handler (.overflow o : Program α) w o' ↔ o' = o := by
  constructor
  · intro h
    cases h
    rfl
  · rintro rfl
    exact .overflow _ _

theorem breaks_get_iff {k : World → Program α} {w : World} {o : Integer.Overflow} :
    Breaks handler (.get k) w o ↔ Breaks handler (k w) w o := by
  constructor
  · intro h
    cases h with
    | get h => exact h
  · exact .get

theorem breaks_set_iff {p : Program α} {w₀ w : World} {o : Integer.Overflow} :
    Breaks handler (.set w p) w₀ o ↔ Breaks handler p w o := by
  constructor
  · intro h
    cases h with
    | set h => exact h
  · exact .set

theorem breaks_call_iff {c : Call} {k : c.Reply → Program α} {w : World} {o : Integer.Overflow} :
    Breaks handler (.call c k) w o ↔ Breaks handler (handler c) w o ∨
      ∃ r w₁, Runs handler (handler c) w r w₁ ∧ Breaks handler (k r) w₁ o := by
  constructor
  · intro h
    cases h with
    | callee hc => exact .inl hc
    | caller hc hk => exact .inr ⟨_, _, hc, hk⟩
  · rintro (hc | ⟨r, w₁, hc, hk⟩)
    · exact .callee hc
    · exact .caller hc hk

theorem ends_done_iff {a : α} {w : World} {e : Ending α} :
    Ends handler (.done a) w e ↔ e = .reply a w := by
  cases e with
  | reply b w' => rw [Ends, runs_done_iff, Ending.reply.injEq]
  | overflow o => exact iff_of_false not_breaks_done nofun

theorem ends_get_iff {k : World → Program α} {w : World} {e : Ending α} :
    Ends handler (.get k) w e ↔ Ends handler (k w) w e := by
  cases e with
  | reply a w' => exact runs_get_iff
  | overflow o => exact breaks_get_iff

theorem ends_set_iff {p : Program α} {w₀ w : World} {e : Ending α} :
    Ends handler (.set w p) w₀ e ↔ Ends handler p w e := by
  cases e with
  | reply a w' => exact runs_set_iff
  | overflow o => exact breaks_set_iff

/-- A request replies what the program of its call results in. -/
theorem runs_request_iff {c : Call} {w w' : World} {r : c.Reply} :
    Runs handler (request c) w r w' ↔ Runs handler (handler c) w r w' := by
  rw [request, runs_call_iff]
  simp only [runs_done_iff]
  constructor
  · rintro ⟨r, w₁, h, rfl, rfl⟩
    exact h
  · exact fun h => ⟨r, w', h, rfl, rfl⟩

/-- A sequence runs the first program and then the second one on its result. -/
theorem runs_bind_iff {p : Program α} {f : α → Program β} {w w' : World} {b : β} :
    Runs handler (p.bind f) w b w' ↔
      ∃ a w₁, Runs handler p w a w₁ ∧ Runs handler (f a) w₁ b w' := by
  induction p generalizing w with
  | done a => simp [bind, runs_done_iff, and_assoc]
  | get k ih => simp only [bind, runs_get_iff, ih]
  | set w₁ p ih => simp only [bind, runs_set_iff, ih]
  | call c k ih =>
    simp only [bind, runs_call_iff, ih]
    constructor
    · rintro ⟨r, w₁, hc, a, w₂, hk, hf⟩
      exact ⟨a, w₂, ⟨r, w₁, hc, hk⟩, hf⟩
    · rintro ⟨a, w₂, ⟨r, w₁, hc, hk⟩, hf⟩
      exact ⟨r, w₁, hc, a, w₂, hk, hf⟩
  | overflow o => simp [bind, not_runs_overflow]

/-- A sequence breaks off in its first program or in the second one. -/
theorem breaks_bind_iff {p : Program α} {f : α → Program β} {w : World} {o : Integer.Overflow} :
    Breaks handler (p.bind f) w o ↔ Breaks handler p w o ∨
      ∃ a w₁, Runs handler p w a w₁ ∧ Breaks handler (f a) w₁ o := by
  induction p generalizing w with
  | done a => simp [bind, runs_done_iff, not_breaks_done, and_assoc]
  | get k ih => simp only [bind, runs_get_iff, breaks_get_iff, ih]
  | set w₁ p ih => simp only [bind, runs_set_iff, breaks_set_iff, ih]
  | call c k ih =>
    simp only [bind, breaks_call_iff, runs_call_iff, ih]
    constructor
    · rintro (hc | ⟨r, w₁, hc, hk | ⟨a, w₂, hk, hf⟩⟩)
      · exact .inl (.inl hc)
      · exact .inl (.inr ⟨r, w₁, hc, hk⟩)
      · exact .inr ⟨a, w₂, ⟨r, w₁, hc, hk⟩, hf⟩
    · rintro ((hc | ⟨r, w₁, hc, hk⟩) | ⟨a, w₂, ⟨r, w₁, hc, hk⟩, hf⟩)
      · exact .inl hc
      · exact .inr ⟨r, w₁, hc, .inl hk⟩
      · exact .inr ⟨r, w₁, hc, .inr ⟨a, w₂, hk, hf⟩⟩
  | overflow o' => simp [bind, not_runs_overflow, breaks_overflow_iff]

/-- What looks at the world first goes on with what is there. -/
theorem runs_reading_iff {f : World → α} {k : α → Program β} {w w' : World} {b : β} :
    Runs handler (reading f >>= k) w b w' ↔ Runs handler (k (f w)) w b w' :=
  runs_get_iff

theorem runs_modify_iff {f : World → World} {k : Unit → Program β} {w w' : World} {b : β} :
    Runs handler (modify f >>= k) w b w' ↔ Runs handler (k ()) (f w) b w' :=
  runs_get_iff.trans runs_set_iff

/-- A program leads to one result only. -/
theorem Runs.unique {p : Program α} {w w₁ w₂ : World} {a b : α} (h : Runs handler p w a w₁)
    (h' : Runs handler p w b w₂) : b = a ∧ w₂ = w₁ := by
  induction h generalizing w₂ with
  | done a w => exact runs_done_iff.1 h'
  | get h ih => exact ih (runs_get_iff.1 h')
  | set h ih => exact ih (runs_set_iff.1 h')
  | call hc hk ihc ihk =>
    obtain ⟨r, w', hc', hk'⟩ := runs_call_iff.1 h'
    obtain ⟨rfl, rfl⟩ := ihc hc'
    exact ihk hk'

/-- A program that leads to a result does not break off. -/
theorem Runs.not_breaks {p : Program α} {w w' : World} {a : α} {o : Integer.Overflow}
    (h : Runs handler p w a w') : ¬Breaks handler p w o := by
  induction h with
  | done a w => exact not_breaks_done
  | get h ih => exact fun hb => ih (breaks_get_iff.1 hb)
  | set h ih => exact fun hb => ih (breaks_set_iff.1 hb)
  | call hc hk ihc ihk =>
    intro hb
    rcases breaks_call_iff.1 hb with hc' | ⟨r, w₁, hc', hk'⟩
    · exact ihc hc'
    · obtain ⟨rfl, rfl⟩ := hc.unique hc'
      exact ihk hk'

/-- A sequence ends where its first program breaks off or as its second one does. -/
theorem ends_bind_iff {p : Program α} {f : α → Program β} {w : World} {e : Ending β} :
    Ends handler (p >>= f) w e ↔ (∃ o, Breaks handler p w o ∧ e = .overflow o) ∨
      ∃ a w₁, Runs handler p w a w₁ ∧ Ends handler (f a) w₁ e := by
  cases e with
  | reply b w' =>
    refine runs_bind_iff.trans ⟨.inr, ?_⟩
    rintro (⟨o, -, ho⟩ | h)
    · cases ho
    · exact h
  | overflow o =>
    refine breaks_bind_iff.trans (or_congr_left ⟨fun h => ⟨o, h, rfl⟩, ?_⟩)
    rintro ⟨o', h, ho⟩
    rwa [Ending.overflow.inj ho]

/-- Behind a program that leads to a result a sequence goes on from there. -/
theorem Runs.ends_bind_iff {p : Program α} {f : α → Program β} {w w₁ : World} {a : α}
    {e : Ending β} (h : Runs handler p w a w₁) :
    Ends handler (p >>= f) w e ↔ Ends handler (f a) w₁ e := by
  refine Program.ends_bind_iff.trans ⟨?_, fun hf => .inr ⟨a, w₁, h, hf⟩⟩
  rintro (⟨o, hp, -⟩ | ⟨a', w₁', ha, hf⟩)
  · exact absurd hp h.not_breaks
  · obtain ⟨rfl, rfl⟩ := h.unique ha
    exact hf

/-- Sequences end alike if their first programs do and they go on alike. -/
theorem ends_bind_congr {p q : Program α} {w v : World}
    (h : ∀ e, Ends handler p w e ↔ Ends handler q v e) (f : α → Program β) {e : Ending β} :
    Ends handler (p >>= f) w e ↔ Ends handler (q >>= f) v e := by
  have hruns : ∀ a w', Runs handler p w a w' ↔ Runs handler q v a w' := fun a w' => h (.reply a w')
  have hbreaks : ∀ o, Breaks handler p w o ↔ Breaks handler q v o := fun o => h (.overflow o)
  simp only [ends_bind_iff, hruns, hbreaks]

/-- A request ends as the program of its call does. -/
theorem ends_request_iff {c : Call} {w : World} {e : Ending c.Reply} :
    Ends handler (request c) w e ↔ Ends handler (handler c) w e := by
  cases e with
  | reply r w' => exact runs_request_iff
  | overflow o => simp [request, Ends, breaks_call_iff, not_breaks_done]

/-! ### Programs that do the same -/

/-- From the world `w` the program ends as the other one does from the world `v`, whatever
calls do. -/
def Does (p : Program α) (w : World) (q : Program α) (v : World) : Prop :=
  ∀ (handler : Machine.Handler) (e : Ending α), Ends handler p w e ↔ Ends handler q v e

namespace Does

variable {p q : Program α} {w v : World}

theorem refl (p : Program α) (w : World) : p.Does w p w :=
  fun _ _ => Iff.rfl

theorem trans {r : Program α} {u : World} (h : p.Does w q v) (h' : q.Does v r u) : p.Does w r u :=
  fun handler e => (h handler e).trans (h' handler e)

theorem symm (h : p.Does w q v) : q.Does v p w :=
  fun handler e => (h handler e).symm

theorem runs_iff (h : p.Does w q v) {a : α} {w' : World} :
    Runs handler p w a w' ↔ Runs handler q v a w' :=
  h handler (.reply a w')

theorem reading (f : World → α) (k : α → Program β) (w : World) :
    (Program.reading f >>= k).Does w (k (f w)) w :=
  fun _ _ => ends_get_iff

theorem update (f : World → α × World) (w : World) :
    (Program.update f).Does w (pure (f w).1) (f w).2 :=
  fun _ _ => ends_get_iff.trans ends_set_iff

theorem modifyInterpreter (w : World) (i : Nat) (f : Interpreter → Interpreter) :
    (Program.modifyInterpreter i f).Does w (pure ()) (w.withInterpreter i f) :=
  update (fun w => ((), w.withInterpreter i f)) w

/-- It is enough that the program leads to the result. -/
theorem of_runs {a : α} (h : ∀ handler, Runs handler p w a v) : p.Does w (pure a) v := by
  intro handler e
  cases e with
  | reply b u =>
    constructor
    · intro hb
      obtain ⟨rfl, rfl⟩ := (h handler).unique hb
      exact .done _ _
    · intro hb
      obtain ⟨rfl, rfl⟩ := runs_done_iff.1 hb
      exact h handler
  | overflow o => exact iff_of_false (h handler).not_breaks not_breaks_done

theorem runs {a : α} (h : p.Does w (pure a) v) : Runs handler p w a v :=
  h.runs_iff.2 (.done a v)

/-- Behind a program that ends with a result a sequence goes on from there. -/
theorem bind {a : α} (h : p.Does w (pure a) v) (k : α → Program β) : (p >>= k).Does w (k a) v :=
  fun _ _ => h.runs.ends_bind_iff

theorem bind_congr (h : p.Does w q v) (f : α → Program β) : (p >>= f).Does w (q >>= f) v :=
  fun handler _ => ends_bind_congr (h handler) f

end Does

/-! ### Results in general -/

/-- Every result of the program has the property. -/
def Always (P : α → Prop) : Program α → Prop
  | .done a => P a
  | .get k => ∀ w, (k w).Always P
  | .set _ p => p.Always P
  | .call _ k => ∀ r, (k r).Always P
  | .overflow _ => True

theorem Always.bind {P : α → Prop} {Q : β → Prop} {p : Program α} {f : α → Program β}
    (hp : p.Always P) (hf : ∀ a, P a → (f a).Always Q) : (p.bind f).Always Q := by
  induction p with
  | done a => exact hf a hp
  | get k ih => exact fun w => ih w (hp w)
  | set w p ih => exact ih hp
  | call c k ih => exact fun r => ih r (hp r)
  | overflow o => trivial

theorem Always.imp {P Q : α → Prop} {p : Program α} (hp : p.Always P) (h : ∀ a, P a → Q a) :
    p.Always Q := by
  induction p with
  | done a => exact h a hp
  | get k ih => exact fun w => ih w (hp w)
  | set w p ih => exact ih hp
  | call c k ih => exact fun r => ih r (hp r)
  | overflow o => trivial

theorem always_of_forall {P : α → Prop} (h : ∀ a, P a) (p : Program α) : p.Always P := by
  induction p with
  | done a => exact h a
  | get k ih => exact ih
  | set w p ih => exact ih
  | call c k ih => exact ih
  | overflow o => trivial

/-- A sequence has the property if its second program does, whatever the first one
results in. -/
theorem always_then {P : β → Prop} {p : Program α} {f : α → Program β}
    (hf : ∀ a, (f a).Always P) : (p >>= f).Always P :=
  .bind (always_of_forall (fun _ => trivial) p) fun a _ => hf a

/-- Programs are equal if they go on alike from every result that can occur. -/
theorem Always.bind_congr {P : α → Prop} {p : Program α} {f g : α → Program β}
    (hp : p.Always P) (hfg : ∀ a, P a → f a = g a) : p.bind f = p.bind g := by
  induction p with
  | done a => exact hfg a hp
  | get k ih => exact congrArg Program.get (funext fun w => ih w (hp w))
  | set w p ih => exact congrArg (Program.set w) (ih hp)
  | call c k ih => exact congrArg (Program.call c) (funext fun r => ih r (hp r))
  | overflow o => rfl

theorem Runs.always {P : α → Prop} {p : Program α} {w w' : World} {a : α}
    (h : Runs handler p w a w') (hp : p.Always P) : P a := by
  induction p generalizing w with
  | done b =>
    obtain ⟨rfl, -⟩ := runs_done_iff.1 h
    exact hp
  | get k ih => exact ih w (runs_get_iff.1 h) (hp w)
  | set w₁ p ih => exact ih (runs_set_iff.1 h) hp
  | call c k ih =>
    obtain ⟨r, w₁, -, hk⟩ := runs_call_iff.1 h
    exact ih r hk (hp r)
  | overflow o => exact absurd h not_runs_overflow

end Program

/-! ### The machine -/

/-- The reply and the world that the call leaves, unless it ends at an overflow. -/
def Ending.reply? {ρ : Type} : Ending ρ → Option (ρ × World)
  | .reply r w => some (r, w)
  | .overflow _ => none

namespace Machine

variable {handler : Handler} {root : Call}

/-- What the stack makes of the end of the innermost call. -/
def Unwinds (handler : Handler) :
    {c : Call} → Stack root c → Ending c.Reply → Ending root.Reply → Prop
  | _, .base, e, e' => e' = e
  | _, .frame _ k rest, .reply a w, e' =>
    ∃ e, Program.Ends handler (k a) w e ∧ Unwinds handler rest e e'
  | _, .frame _ _ _, .overflow o, e' => e' = .overflow o

theorem unwinds_overflow_iff {c : Call} (stack : Stack root c) {o : Integer.Overflow}
    {e : Ending root.Reply} : Unwinds handler stack (.overflow o) e ↔ e = .overflow o := by
  cases stack <;> exact Iff.rfl

/-- A machine that comes to an end has run its current program and then the
programs on its stack. -/
theorem ends_of_run {n : Nat} {m : Machine root} {e' : Ending root.Reply}
    (h : run handler n m = some e') :
    ∃ e, Program.Ends handler m.code m.world e ∧ Unwinds handler m.stack e e' := by
  induction n generalizing m with
  | zero => cases h
  | succ n ih =>
    obtain ⟨c, code, stack, w⟩ := m
    rw [run] at h
    cases code with
    | done a =>
      cases stack with
      | base =>
        obtain rfl : .reply a w = e' := by simpa [step] using h
        exact ⟨.reply a w, .done a w, rfl⟩
      | frame _ k rest => exact ⟨.reply a w, .done a w, ih h⟩
    | get k =>
      obtain ⟨e, he, hu⟩ := ih h
      exact ⟨e, Program.ends_get_iff.2 he, hu⟩
    | set w₁ p =>
      obtain ⟨e, he, hu⟩ := ih h
      exact ⟨e, Program.ends_set_iff.2 he, hu⟩
    | call c' k =>
      obtain ⟨e, he, hu⟩ := ih h
      cases e with
      | reply r w₁ =>
        obtain ⟨e, hk, hu⟩ := hu
        refine ⟨e, ?_, hu⟩
        cases e with
        | reply b w' => exact .call he hk
        | overflow o => exact .caller he hk
      | overflow o => exact ⟨.overflow o, .callee he, (unwinds_overflow_iff stack).2 hu⟩
    | overflow o =>
      obtain rfl : .overflow o = e' := by simpa [step] using h
      exact ⟨.overflow o, .overflow o w, (unwinds_overflow_iff stack).2 rfl⟩

/-- A machine whose current program starts with a program that runs to a result
comes to its end if it does so from that result on. -/
theorem exists_run_of_runs {α : Type} {p : Program α} {w w' : World} {a : α}
    (h : Program.Runs handler p w a w') (c : Call) (f : α → Program c.Reply)
    (stack : Stack root c) {e : Ending root.Reply}
    (he : ∃ n, run handler n ⟨c, f a, stack, w'⟩ = some e) :
    ∃ n, run handler n ⟨c, p.bind f, stack, w⟩ = some e := by
  induction h generalizing c with
  | done a w => exact he
  | get h ih =>
    obtain ⟨n, hn⟩ := ih c f stack he
    exact ⟨n + 1, hn⟩
  | set h ih =>
    obtain ⟨n, hn⟩ := ih c f stack he
    exact ⟨n + 1, hn⟩
  | @call α d k w w₁ w' r a hc hk ihc ihk =>
    obtain ⟨n, hn⟩ := ihk c f stack he
    obtain ⟨m, hm⟩ := ihc d .done (.frame d (fun r => (k r).bind f) stack) ⟨n + 1, hn⟩
    rw [Program.bind_done] at hm
    exact ⟨m + 1, hm⟩

/-- A machine whose current program starts with a program that breaks off ends at the
overflow, whatever is on its stack. -/
theorem exists_run_of_breaks {α : Type} {p : Program α} {w : World} {o : Integer.Overflow}
    (h : Program.Breaks handler p w o) (c : Call) (f : α → Program c.Reply)
    (stack : Stack root c) : ∃ n, run handler n ⟨c, p.bind f, stack, w⟩ = some (.overflow o) := by
  induction h generalizing c with
  | overflow o w => exact ⟨1, rfl⟩
  | get h ih =>
    obtain ⟨n, hn⟩ := ih c f stack
    exact ⟨n + 1, hn⟩
  | set h ih =>
    obtain ⟨n, hn⟩ := ih c f stack
    exact ⟨n + 1, hn⟩
  | @callee α d k w o hc ihc =>
    obtain ⟨m, hm⟩ := ihc d .done (.frame d (fun r => (k r).bind f) stack)
    rw [Program.bind_done] at hm
    exact ⟨m + 1, hm⟩
  | @caller α d k w w₁ r o hc hk ihk =>
    obtain ⟨n, hn⟩ := ihk c f stack
    obtain ⟨m, hm⟩ := exists_run_of_runs hc d .done (.frame d (fun r => (k r).bind f) stack)
      ⟨n + 1, hn⟩
    rw [Program.bind_done] at hm
    exact ⟨m + 1, hm⟩

/-- **A machine that starts on a call comes to the end that the call's program
comes to.** -/
theorem exists_run_iff {c : Call} {w : World} {e : Ending c.Reply} :
    (∃ n, run handler n (start handler c w) = some e) ↔ Program.Ends handler (handler c) w e := by
  constructor
  · rintro ⟨n, hn⟩
    obtain ⟨e', he, rfl⟩ := ends_of_run hn
    exact he
  · intro h
    rw [start, ← Program.bind_done (handler c)]
    cases e with
    | reply r w' => exact exists_run_of_runs h c .done .base ⟨1, rfl⟩
    | overflow o => exact exists_run_of_breaks h c .done .base

/-- What is computed of the reply to a call is so of an execution. -/
theorem exists_runs_of_run {c : Call} {n : Nat} {w : World} {β : Type} {f : c.Reply × World → β}
    {b : β} (h : ((run handler n (start handler c w)).bind Ending.reply?).map f = some b) :
    ∃ r w', Program.Runs handler (handler c) w r w' ∧ f (r, w') = b := by
  obtain ⟨⟨r, w'⟩, hrun, hb⟩ := Option.map_eq_some_iff.1 h
  obtain ⟨e, hrun, he⟩ := Option.bind_eq_some_iff.1 hrun
  cases e with
  | reply r' v =>
    cases he
    exact ⟨r, w', exists_run_iff.1 ⟨n, hrun⟩, hb⟩
  | overflow o => cases he

end Machine
end CommandBridge
