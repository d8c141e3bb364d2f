/-
# The calls of an execution

`Program.Makes` is an execution together with the calls that are made on the way, those
that other calls make among them, in the order in which they begin.  Every execution
has such a log (`Program.exists_makes_iff`), and a program that meets a contract makes
only calls that the contract admits (`Program.Makes.meets`).
-/

import CommandBridge.Proofs.Run.Contract
import CommandBridge.Proofs.Run.Execution

namespace CommandBridge
namespace Program

variable {handler : Machine.Handler} {α β : Type}

/-- `Makes handler p w cs a w'`: with the handler, the program leads from the world
`w` to the result `a` and the world `w'`, and the calls `cs` are made. -/
inductive Makes (handler : Machine.Handler) :
    {α : Type} → Program α → World → List Call → α → World → Prop where
  | done {α : Type} (a : α) (w : World) : Makes handler (.done a) w [] a w
  | get {α : Type} {k : World → Program α} {w w' : World} {cs : List Call} {a : α}
      (h : Makes handler (k w) w cs a w') : Makes handler (.get k) w cs a w'
  | set {α : Type} {p : Program α} {w₀ w w' : World} {cs : List Call} {a : α}
      (h : Makes handler p w cs a w') : Makes handler (.set w p) w₀ cs a w'
  | call {α : Type} {c : Call} {k : c.Reply → Program α} {w w₁ w' : World} {cs cs' : List Call}
      {r : c.Reply} {a : α} (hc : Makes handler (handler c) w cs r w₁)
      (hk : Makes handler (k r) w₁ cs' a w') : Makes handler (.call c k) w (c :: (cs ++ cs')) a w'

theorem Makes.runs {p : Program α} {w w' : World} {cs : List Call} {a : α}
    (h : Makes handler p w cs a w') : Runs handler p w a w' := by
  induction h with
  | done a w => exact .done a w
  | get _ ih => exact .get ih
  | set _ ih => exact .set ih
  | call _ _ ihc ihk => exact .call ihc ihk

/-- Every execution has its log. -/
theorem exists_makes_iff {p : Program α} {w w' : World} {a : α} :
    (∃ cs, Makes handler p w cs a w') ↔ Runs handler p w a w' := by
  refine ⟨fun ⟨cs, h⟩ => h.runs, fun h => ?_⟩
  induction h with
  | done a w => exact ⟨[], .done a w⟩
  | get _ ih =>
    obtain ⟨cs, h⟩ := ih
    exact ⟨cs, .get h⟩
  | set _ ih =>
    obtain ⟨cs, h⟩ := ih
    exact ⟨cs, .set h⟩
  | call _ _ ihc ihk =>
    obtain ⟨cs, hc⟩ := ihc
    obtain ⟨cs', hk⟩ := ihk
    exact ⟨_, .call hc hk⟩

theorem makes_done_iff {a b : α} {w w' : World} {cs : List Call} :
    Makes handler (.done a) w cs b w' ↔ cs = [] ∧ b = a ∧ w' = w := by
  constructor
  · intro h
    cases h
    exact ⟨rfl, rfl, rfl⟩
  · rintro ⟨rfl, rfl, rfl⟩
    exact .done _ _

theorem makes_get_iff {k : World → Program α} {a : α} {w w' : World} {cs : List Call} :
    Makes handler (get k) w cs a w' ↔ Makes handler (k w) w cs a w' := by
  constructor
  · intro h
    cases h with
    | get h => exact h
  · exact .get

theorem makes_set_iff {p : Program α} {a : α} {w₀ w w' : World} {cs : List Call} :
    Makes handler (set w p) w₀ cs a w' ↔ Makes handler p w cs a w' := by
  constructor
  · intro h
    cases h with
    | set h => exact h
  · exact .set

theorem makes_reading_iff {f : World → α} {k : α → Program β} {b : β} {w w' : World}
    {cs : List Call} :
    Makes handler (reading f >>= k) w cs b w' ↔ Makes handler (k (f w)) w cs b w' :=
  makes_get_iff

theorem makes_update_bind_iff {f : World → α × World} {k : α → Program β} {b : β} {w w' : World}
    {cs : List Call} :
    Makes handler (update f >>= k) w cs b w' ↔ Makes handler (k (f w).1) (f w).2 cs b w' :=
  makes_get_iff.trans makes_set_iff

theorem makes_modify_bind_iff {f : World → World} {k : Unit → Program β} {b : β} {w w' : World}
    {cs : List Call} :
    Makes handler (modify f >>= k) w cs b w' ↔ Makes handler (k ()) (f w) cs b w' :=
  makes_get_iff.trans makes_set_iff

theorem makes_update_iff {f : World → α × World} {a : α} {w w' : World} {cs : List Call} :
    Makes handler (update f) w cs a w' ↔ cs = [] ∧ a = (f w).1 ∧ w' = (f w).2 :=
  (makes_get_iff.trans makes_set_iff).trans makes_done_iff

/-- A request makes its call and what is called makes the others. -/
theorem Makes.of_request {c : Call} {r : c.Reply} {w w' : World} {cs : List Call}
    (h : Makes handler (request c) w cs r w') :
    ∃ cs', cs = c :: cs' ∧ Makes handler (handler c) w cs' r w' := by
  cases h with
  | call hc hk =>
    obtain ⟨rfl, rfl, rfl⟩ := makes_done_iff.1 hk
    exact ⟨_, by rw [List.append_nil], hc⟩

/-- A sequence makes the calls of its first program and then those of the second one. -/
theorem Makes.of_bind {p : Program α} {f : α → Program β} {w w' : World} {cs : List Call} {b : β}
    (h : Makes handler (p.bind f) w cs b w') :
    ∃ a w₁ cs₁ cs₂, cs = cs₁ ++ cs₂ ∧ Makes handler p w cs₁ a w₁ ∧
      Makes handler (f a) w₁ cs₂ b w' := by
  induction p generalizing w cs with
  | done a => exact ⟨a, w, [], cs, rfl, .done a w, h⟩
  | get k ih =>
    cases h with
    | get h =>
      obtain ⟨a, w₁, cs₁, cs₂, rfl, hp, hf⟩ := ih _ h
      exact ⟨a, w₁, cs₁, cs₂, rfl, .get hp, hf⟩
  | set w₁ p ih =>
    cases h with
    | set h =>
      obtain ⟨a, w₁, cs₁, cs₂, rfl, hp, hf⟩ := ih h
      exact ⟨a, w₁, cs₁, cs₂, rfl, .set hp, hf⟩
  | call c k ih =>
    cases h with
    | call hc hk =>
      obtain ⟨a, w₁, cs₁, cs₂, rfl, hp, hf⟩ := ih _ hk
      exact ⟨a, w₁, _, cs₂, by rw [List.cons_append, List.append_assoc], .call hc hp, hf⟩
  | overflow o => cases h

/-- Under a contract every call of an execution is made as the contract demands, if the
calls that are made are within the scope. -/
theorem Makes.meets_within {S : Scope} (hS : ∀ callers c v v', S.changes callers c v v')
    {K : Contract S} (hK : K.Holds handler) {p : Program α} {w w' : World} {cs : List Call} {a : α}
    (h : Makes handler p w cs a w') (hcs : ∀ d ∈ cs, ∀ callers v, S.calls callers d v)
    {callers : List Call} {c : Call} {Q : α → World → Prop} (hp : p.Meets K callers c Q w) :
    Q a w' ∧ ∀ d ∈ cs, ∃ callers v, K.Pre callers d v := by
  induction h generalizing callers c with
  | done a w => exact ⟨hp, nofun⟩
  | get _ ih => exact ih hcs hp
  | set _ ih => exact ih hcs (hp (hS ..)).2
  | @call α d k w w₁ w' cs cs' r a _ _ ihc ihk =>
    have hd := hcs d List.mem_cons_self
    obtain ⟨hpre, hk⟩ := hp (hd ..)
    obtain ⟨hpost, hcalls⟩ := ihc
      (fun e he => hcs e (List.mem_cons_of_mem d (List.mem_append_left cs' he)))
      (hK _ d w (hd ..) hpre)
    obtain ⟨hq, hcalls'⟩ := ihk
      (fun e he => hcs e (List.mem_cons_of_mem d (List.mem_append_right cs he))) (hk r w₁ hpost)
    refine ⟨hq, fun d' hd' => ?_⟩
    rcases List.mem_cons.1 hd' with rfl | hd'
    · exact ⟨_, w, hpre⟩
    · rcases List.mem_append.1 hd' with hd' | hd'
      · exact hcalls d' hd'
      · exact hcalls' d' hd'

/-- Under a contract every call of an execution is made as the contract demands. -/
theorem Makes.meets {K : Contract {}} (hK : K.Holds handler) {p : Program α}
    {w w' : World} {cs : List Call} {a : α} (h : Makes handler p w cs a w') {callers : List Call}
    {c : Call} {Q : α → World → Prop} (hp : p.Meets K callers c Q w) :
    Q a w' ∧ ∀ d ∈ cs, ∃ callers v, K.Pre callers d v :=
  h.meets_within (fun _ _ _ _ => trivial) hK (fun _ _ _ _ => trivial) hp

end Program
end CommandBridge
