/-
# Calls within calls

`Program.Nests` is an execution that keeps for every call the calls in progress, each with
the world in which it was made.  A demand (`Program.Demand`) may therefore compare a call
with those around it.  Such an execution comes to its end (`Program.Nests.runs`), and with
it the machine does.  It has a log in which all calls are as demanded (`Program.Nests.makes`).
If the demand can be decided, then programs can be carried out under it
(`Program.nests_of_carry`).  `Program.Halts` is such an execution that breaks off, with the
calls in which it does.

A program finishes if, from every world with one property, an execution that meets the
demand leads to a world with another property, or breaks off in calls where it may
(`Program.Finishes`).  It ensures a property
if every execution that meets the demand ends with it (`Program.Ensures`).
-/

import CommandBridge.Proofs.Run.CallLog

namespace CommandBridge
namespace Program

/-- What is demanded of a call that is made in a world, given the calls in progress and
the worlds in which they were made, innermost first. -/
abbrev Demand : Type := List (Call × World) → Call → World → Prop

variable {handler : Machine.Handler} {P : Demand} {cs : List (Call × World)} {α β : Type}

/-- `Nests handler P cs p w a w'`: with the handler, the program leads from the world `w`
to the result `a` and the world `w'` while the calls `cs` are in progress, and all calls on
the way are made as `P` demands. -/
inductive Nests (handler : Machine.Handler) (P : Demand) :
    List (Call × World) → {α : Type} → Program α → World → α → World → Prop where
  | done {cs : List (Call × World)} {α : Type} (a : α) (w : World) :
      Nests handler P cs (.done a) w a w
  | get {cs : List (Call × World)} {α : Type} {k : World → Program α} {w w' : World} {a : α}
      (h : Nests handler P cs (k w) w a w') : Nests handler P cs (.get k) w a w'
  | set {cs : List (Call × World)} {α : Type} {p : Program α} {w₀ w w' : World} {a : α}
      (h : Nests handler P cs p w a w') : Nests handler P cs (.set w p) w₀ a w'
  | call {cs : List (Call × World)} {α : Type} {c : Call} {k : c.Reply → Program α}
      {w w₁ w' : World} {r : c.Reply} {a : α} (hP : P cs c w)
      (hc : Nests handler P ((c, w) :: cs) (handler c) w r w₁)
      (hk : Nests handler P cs (k r) w₁ a w') : Nests handler P cs (.call c k) w a w'

/-- `Halts handler P cs p w ds o`: with the handler, the program that starts in the world `w`
while the calls `cs` are in progress breaks off at the overflow `o` while the calls `ds` are,
and all calls on the way are made as `P` demands. -/
inductive Halts (handler : Machine.Handler) (P : Demand) : List (Call × World) → {α : Type} →
    Program α → World → List (Call × World) → Integer.Overflow → Prop where
  | overflow {cs : List (Call × World)} {α : Type} (o : Integer.Overflow) (w : World) :
      Halts handler P cs (.overflow o : Program α) w cs o
  | get {cs ds : List (Call × World)} {α : Type} {k : World → Program α} {w : World}
      {o : Integer.Overflow} (h : Halts handler P cs (k w) w ds o) :
      Halts handler P cs (.get k) w ds o
  | set {cs ds : List (Call × World)} {α : Type} {p : Program α} {w₀ w : World}
      {o : Integer.Overflow} (h : Halts handler P cs p w ds o) :
      Halts handler P cs (.set w p) w₀ ds o
  | callee {cs ds : List (Call × World)} {α : Type} {c : Call} {k : c.Reply → Program α}
      {w : World} {o : Integer.Overflow} (hP : P cs c w)
      (hc : Halts handler P ((c, w) :: cs) (handler c) w ds o) :
      Halts handler P cs (.call c k) w ds o
  | caller {cs ds : List (Call × World)} {α : Type} {c : Call} {k : c.Reply → Program α}
      {w w₁ : World} {r : c.Reply} {o : Integer.Overflow} (hP : P cs c w)
      (hc : Nests handler P ((c, w) :: cs) (handler c) w r w₁)
      (hk : Halts handler P cs (k r) w₁ ds o) : Halts handler P cs (.call c k) w ds o

theorem Nests.runs {p : Program α} {w w' : World} {a : α} (h : Nests handler P cs p w a w') :
    Runs handler p w a w' := by
  induction h with
  | done a w => exact .done a w
  | get _ ih => exact .get ih
  | set _ ih => exact .set ih
  | call _ _ _ ihc ihk => exact .call ihc ihk

theorem Nests.bind {p : Program α} {f : α → Program β} {w w₁ w' : World} {a : α} {b : β}
    (hp : Nests handler P cs p w a w₁) (hf : Nests handler P cs (f a) w₁ b w') :
    Nests handler P cs (p.bind f) w b w' := by
  induction p generalizing w with
  | done a' =>
    cases hp
    exact hf
  | get k ih =>
    cases hp with
    | get h => exact .get (ih _ h)
  | set v p ih =>
    cases hp with
    | set h => exact .set (ih h)
  | call c k ih =>
    cases hp with
    | call hP hc hk => exact .call hP hc (ih _ hk)
  | overflow o => cases hp

/-- Nothing goes on behind a program that breaks off. -/
theorem Halts.bind {p : Program α} {w : World} {ds : List (Call × World)} {o : Integer.Overflow}
    (h : Halts handler P cs p w ds o) (f : α → Program β) :
    Halts handler P cs (p.bind f) w ds o := by
  induction h with
  | overflow o w => exact .overflow o w
  | get _ ih => exact .get (ih f)
  | set _ ih => exact .set (ih f)
  | callee hP hc _ => exact .callee hP hc
  | caller hP hc _ ih => exact .caller hP hc (ih f)

/-- A sequence breaks off in its second program. -/
theorem Nests.halts_bind {p : Program α} {f : α → Program β} {w w₁ : World} {a : α}
    {ds : List (Call × World)} {o : Integer.Overflow} (hp : Nests handler P cs p w a w₁)
    (hf : Halts handler P cs (f a) w₁ ds o) : Halts handler P cs (p.bind f) w ds o := by
  induction hp with
  | done a w => exact hf
  | get _ ih => exact .get (ih hf)
  | set _ ih => exact .set (ih hf)
  | call hP hc _ _ ihk => exact .caller hP hc (ihk hf)

theorem nests_done_iff {a b : α} {w w' : World} :
    Nests handler P cs (.done a) w b w' ↔ b = a ∧ w' = w := by
  constructor
  · intro h
    cases h
    exact ⟨rfl, rfl⟩
  · rintro ⟨rfl, rfl⟩
    exact .done _ _

theorem nests_get_iff {k : World → Program α} {w w' : World} {a : α} :
    Nests handler P cs (.get k) w a w' ↔ Nests handler P cs (k w) w a w' := by
  constructor
  · intro h
    cases h with
    | get h => exact h
  · exact .get

theorem nests_set_iff {p : Program α} {w₀ w w' : World} {a : α} :
    Nests handler P cs (.set w p) w₀ a w' ↔ Nests handler P cs p w a w' := by
  constructor
  · intro h
    cases h with
    | set h => exact h
  · exact .set

/-- A request makes its call as demanded, and what is called goes on within it. -/
theorem Nests.of_request {c : Call} {r : c.Reply} {w w' : World}
    (h : Nests handler P cs (request c) w r w') :
    P cs c w ∧ Nests handler P ((c, w) :: cs) (handler c) w r w' := by
  cases h with
  | call hP hc hk =>
    obtain ⟨rfl, rfl⟩ := nests_done_iff.1 hk
    exact ⟨hP, hc⟩

theorem Nests.of_bind {p : Program α} {f : α → Program β} {w w' : World} {b : β}
    (h : Nests handler P cs (p.bind f) w b w') :
    ∃ a w₁, Nests handler P cs p w a w₁ ∧ Nests handler P cs (f a) w₁ b w' := by
  induction p generalizing w with
  | done a => exact ⟨a, w, .done a w, h⟩
  | get k ih =>
    obtain ⟨a, w₁, hp, hf⟩ := ih w (nests_get_iff.1 h)
    exact ⟨a, w₁, .get hp, hf⟩
  | set v p ih =>
    obtain ⟨a, w₁, hp, hf⟩ := ih (nests_set_iff.1 h)
    exact ⟨a, w₁, .set hp, hf⟩
  | call c k ih =>
    cases h with
    | call hP hc hk =>
      obtain ⟨a, w₁, hp, hf⟩ := ih _ hk
      exact ⟨a, w₁, .call hP hc hp, hf⟩
  | overflow o => cases h

/-- The execution has a log, and all calls in it are as demanded. -/
theorem Nests.makes {p : Program α} {w w' : World} {a : α} (h : Nests handler P cs p w a w') :
    ∃ log, Makes handler p w log a w' ∧ ∀ c ∈ log, ∃ cs v, P cs c v := by
  induction h with
  | done a w => exact ⟨[], .done a w, nofun⟩
  | get _ ih =>
    obtain ⟨log, h, hlog⟩ := ih
    exact ⟨log, .get h, hlog⟩
  | set _ ih =>
    obtain ⟨log, h, hlog⟩ := ih
    exact ⟨log, .set h, hlog⟩
  | call hP _ _ ihc ihk =>
    obtain ⟨log, hc, hlog⟩ := ihc
    obtain ⟨log', hk, hlog'⟩ := ihk
    refine ⟨_, .call hc hk, List.forall_mem_cons.2 ⟨⟨_, _, hP⟩, fun d hd => ?_⟩⟩
    exact (List.mem_append.1 hd).elim (hlog d) (hlog' d)

/-- Carries a program out in a number of steps, if all calls are made as demanded. -/
def carry (handler : Machine.Handler) (P : Demand) [∀ cs c w, Decidable (P cs c w)] :
    Nat → List (Call × World) → {α : Type} → Program α → World → Option (α × World)
  | 0, _, _, _, _ => none
  | _ + 1, _, _, .done a, w => some (a, w)
  | n + 1, cs, _, .get k, w => carry handler P n cs (k w) w
  | n + 1, cs, _, .set w p, _ => carry handler P n cs p w
  | n + 1, cs, _, .call c k, w =>
    if P cs c w then
      (carry handler P n ((c, w) :: cs) (handler c) w).bind fun o =>
        carry handler P n cs (k o.1) o.2
    else none
  | _ + 1, _, _, .overflow _, _ => none

theorem nests_of_carry [∀ cs c w, Decidable (P cs c w)] {n : Nat} {p : Program α} {w w' : World}
    {a : α} (h : carry handler P n cs p w = some (a, w')) : Nests handler P cs p w a w' := by
  induction n generalizing cs α w w' with
  | zero => cases h
  | succ n ih =>
    cases p with
    | done b =>
      obtain ⟨rfl, rfl⟩ := Prod.mk.inj (Option.some.inj h)
      exact .done _ _
    | get k => exact .get (ih h)
    | set v p => exact .set (ih h)
    | call c k =>
      rw [carry] at h
      split at h
      · rename_i hP
        obtain ⟨⟨r, v⟩, hc, hk⟩ := Option.bind_eq_some_iff.1 h
        exact .call hP (ih hc) (ih hk)
      · cases h
    | overflow o => cases h

/-- What is computed of the end of a program is so of an execution. -/
theorem exists_nests_of_carry [∀ cs c w, Decidable (P cs c w)] {n : Nat} {p : Program α} {w : World}
    {f : α × World → β} {b : β} (h : (carry handler P n cs p w).map f = some b) :
    ∃ a w', Nests handler P cs p w a w' ∧ f (a, w') = b := by
  obtain ⟨⟨a, w'⟩, hcarry, hb⟩ := Option.map_eq_some_iff.1 h
  exact ⟨a, w', nests_of_carry hcarry, hb⟩

/-- From every world with the property `I` an execution that meets the demand leads to a
world with the property `J`, or it breaks off at an overflow in calls that `B` holds of. -/
def Finishes (handler : Machine.Handler) (P : Demand) (cs : List (Call × World))
    (I J : World → Prop) (B : List (Call × World) → Integer.Overflow → Prop) (p : Program α) :
    Prop :=
  ∀ w, I w → (∃ a w', Nests handler P cs p w a w' ∧ J w') ∨
    ∃ ds o, Halts handler P cs p w ds o ∧ B ds o

namespace Finishes

variable {I J K : World → Prop} {B : List (Call × World) → Integer.Overflow → Prop}

theorem pure (a : α) : Finishes handler P cs I I B (Pure.pure a : Program α) :=
  fun w hw => .inl ⟨a, w, .done a w, hw⟩

theorem overflow (o : Integer.Overflow) (hB : B cs o) :
    Finishes handler P cs I J B (.overflow o : Program α) :=
  fun w _ => .inr ⟨cs, o, .overflow o w, hB⟩

theorem imp {p : Program α} (hp : Finishes handler P cs I J B p) {I' : World → Prop}
    (h : ∀ w, I' w → I w) : Finishes handler P cs I' J B p :=
  fun w hw => hp w (h w hw)

theorem bind {p : Program α} {f : α → Program β} (hp : Finishes handler P cs I J B p)
    (hf : ∀ a, Finishes handler P cs J K B (f a)) : Finishes handler P cs I K B (p >>= f) := by
  intro w hw
  rcases hp w hw with ⟨a, w₁, hp, hw₁⟩ | ⟨ds, o, hp, hB⟩
  · rcases hf a w₁ hw₁ with ⟨b, w', hf, hw'⟩ | ⟨ds, o, hf, hB⟩
    · exact .inl ⟨b, w', hp.bind hf, hw'⟩
    · exact .inr ⟨ds, o, hp.halts_bind hf, hB⟩
  · exact .inr ⟨ds, o, hp.bind f, hB⟩

theorem reading {f : World → α} {k : α → Program β}
    (hk : ∀ w, I w → Finishes handler P cs I J B (k (f w))) :
    Finishes handler P cs I J B (Program.reading f >>= k) := by
  intro w hw
  rcases hk w hw w hw with ⟨b, w', h, hw'⟩ | ⟨ds, o, h, hB⟩
  · exact .inl ⟨b, w', .get h, hw'⟩
  · exact .inr ⟨ds, o, .get h, hB⟩

theorem updating {f : World → α × World} {k : α → Program β}
    (hk : ∀ w, I w → J (f w).2 ∧ Finishes handler P cs J K B (k (f w).1)) :
    Finishes handler P cs I K B (Program.update f >>= k) := by
  intro w hw
  rcases (hk w hw).2 _ (hk w hw).1 with ⟨b, w', h, hw'⟩ | ⟨ds, o, h, hB⟩
  · exact .inl ⟨b, w', .get (.set h), hw'⟩
  · exact .inr ⟨ds, o, .get (.set h), hB⟩

theorem modify {f : World → World} (hf : ∀ w, I w → J (f w)) :
    Finishes handler P cs I J B (Program.modify f) :=
  fun w hw => .inl ⟨(), f w, .get (.set (.done _ _)), hf w hw⟩

/-- A call is made where it may be made, and its program finishes within the calls that are
then in progress. -/
theorem request {c : Call} (hP : ∀ w, I w → P cs c w)
    (hc : ∀ w, I w → Finishes handler P ((c, w) :: cs) (· = w) J B (handler c)) :
    Finishes handler P cs I J B (Program.request c) := by
  intro w hw
  rcases hc w hw w rfl with ⟨r, w', h, hw'⟩ | ⟨ds, o, h, hB⟩
  · exact .inl ⟨r, w', .call (hP w hw) h (.done r w'), hw'⟩
  · exact .inr ⟨ds, o, .callee (hP w hw) h, hB⟩

end Finishes

/-- Wherever an execution from the world `w` ends that meets the demand, the result and the
world there have the property. -/
def Ensures (handler : Machine.Handler) (P : Demand) (cs : List (Call × World)) (p : Program α)
    (w : World) (Q : α → World → Prop) : Prop :=
  ∀ a w', Nests handler P cs p w a w' → Q a w'

namespace Ensures

variable {w : World} {p : Program α} {Q : α → World → Prop}

theorem imp {R : α → World → Prop} (hp : Ensures handler P cs p w Q) (h : ∀ a w', Q a w' → R a w') :
    Ensures handler P cs p w R :=
  fun a w' hn => h a w' (hp a w' hn)

theorem pure {a : α} (h : Q a w) : Ensures handler P cs (Pure.pure a : Program α) w Q := by
  intro b w' hn
  obtain ⟨rfl, rfl⟩ := nests_done_iff.1 hn
  exact h

theorem bind {f : α → Program β} {R : β → World → Prop}
    (hp : Ensures handler P cs p w fun a w' => Ensures handler P cs (f a) w' R) :
    Ensures handler P cs (p >>= f) w R := by
  intro b w' hn
  obtain ⟨a, w₁, hp', hf⟩ := Nests.of_bind hn
  exact hp a w₁ hp' b w' hf

theorem reading {f : World → α} (h : Q (f w) w) : Ensures handler P cs (Program.reading f) w Q := by
  intro a w' hn
  replace hn := nests_get_iff.1 hn
  obtain ⟨rfl, rfl⟩ := nests_done_iff.1 hn
  exact h

theorem update {f : World → α × World} (h : Q (f w).1 (f w).2) :
    Ensures handler P cs (Program.update f) w Q := by
  intro a w' hn
  replace hn := nests_get_iff.1 hn
  replace hn := nests_set_iff.1 hn
  obtain ⟨rfl, rfl⟩ := nests_done_iff.1 hn
  exact h

theorem modify {f : World → World} {R : Unit → World → Prop} (h : R () (f w)) :
    Ensures handler P cs (Program.modify f) w R :=
  update (f := fun w => ((), f w)) h

end Ensures
end Program
end CommandBridge
