/-
# Indexing a nested list

`lindex` takes several indices and picks an element of an element.  The same can be done
with one index at a time, each on what the last one left in the result register
(`lindexInTurn`), either on the value itself or on its text alone: an element is picked from
a text as from the value that it is the text of (`pick_plain`).

Both end with the same status and the same text, or at the same overflow, with one exception.
At an index outside its list `lindex` stops with the empty value, and the indices behind it
are not looked at; going on with the empty value finds the first of them that is no index
into any list (`lindex_in_turn`).
-/

import CommandBridge.Builtin.Run
import CommandBridge.Proofs.Interpreter.Frame
import CommandBridge.Proofs.Interpreter.ListEvaluation
import CommandBridge.Proofs.Value.Overflow

namespace CommandBridge
namespace Builtin
open Integer

/-! ### Picking one element -/

/-- The value is malformed as an index, whatever the list. -/
def Malformed (index : Value) : Prop :=
  indexPosition index 0 = .error .malformed

/-- The error for a malformed index. -/
def malformedError (index : Value) : IndexError :=
  .badIndex (Text.trim index.str)

/-- The value is no index into any list: it is malformed, or it overflows as an integer. -/
inductive Refuses (index : Value) : IndexError → Prop where
  | malformed (h : Malformed index) : Refuses index (malformedError index)
  | overflow {o : Overflow} (h : index.getInt = .error (.overflow o)) : Refuses index (.overflow o)

variable {u v : Value} {index : Value} {indices : List Value}

theorem positionBack_ne_malformed (length : Nat) (back : Int64) :
    positionBack length back ≠ .error .malformed := by
  intro h
  obtain ⟨o, ho, -⟩ := checked_eq_error_iff.1 h
  cases ho

/-- Whether an index is well formed does not depend on the list. -/
theorem indexPosition_eq_malformed_iff (n : Nat) :
    indexPosition index n = .error .malformed ↔ Malformed index := by
  rw [Malformed, indexPosition, indexPosition]
  split
  · rfl
  · split
    · exact iff_of_false (positionBack_ne_malformed n 0) (positionBack_ne_malformed 0 0)
    · cases accept _ with
      | error r => rfl
      | ok back =>
        exact iff_of_false (positionBack_ne_malformed n back) (positionBack_ne_malformed 0 back)

theorem indexPosition_zero_eq_overflow_iff {o : Overflow} :
    indexPosition index 0 = .error (.overflow o) ↔ index.getInt = .error (.overflow o) :=
  (indexPosition_eq_overflow_iff_overruns (by decide)).trans
    (or_iff_left fun h => absurd h.1.length_pos (by decide))

/-- Nothing is in the empty value, but the index is looked at. -/
theorem pick_empty (index : Value) : (∃ e, Refuses index e ∧ pick .empty index = .error e) ∨
    ((∀ e, ¬Refuses index e) ∧ pick .empty index = .ok none) := by
  have hempty : Value.empty.getList = .ok [] := rfl
  simp only [pick, hempty, List.length_nil]
  cases hposition : indexPosition index 0 with
  | error r =>
    cases r with
    | malformed => exact .inl ⟨_, .malformed hposition, rfl⟩
    | overflow o =>
      exact .inl ⟨_, .overflow (indexPosition_zero_eq_overflow_iff.1 hposition), rfl⟩
  | ok p =>
    refine .inr ⟨fun e he => ?_, by simp⟩
    cases he with
    | malformed h => cases hposition.symm.trans h
    | overflow h => cases hposition.symm.trans (indexPosition_zero_eq_overflow_iff.2 h)

/-- **An element is picked from a text as from the value that it is the text of.** -/
theorem pick_plain (v index : Value) :
    pick v.plain index = (pick v index).map (·.map Value.plain) := by
  rw [pick, pick, Value.getList_plain]
  cases v.getList with
  | error e => rfl
  | ok elements =>
    dsimp only [Except.map]
    rw [List.length_map]
    cases indexPosition index elements.length with
    | error r => cases r <;> rfl
    | ok p =>
      dsimp only
      split
      · rw [List.getElem?_map]
      · rfl

/-- From two values with one text the same is picked, as far as texts go. -/
theorem pick_cases (h : u.plain = v.plain) (index : Value) :
    (∃ e, pick u index = .error e ∧ pick v index = .error e) ∨
      (pick u index = .ok none ∧ pick v index = .ok none) ∨
      ∃ a b, pick u index = .ok (some a) ∧ pick v index = .ok (some b) ∧ a.plain = b.plain := by
  have hpick : (pick u index).map (·.map Value.plain) = (pick v index).map (·.map Value.plain) := by
    rw [← pick_plain, ← pick_plain, h]
  cases hu : pick u index with
  | error e =>
    rw [hu] at hpick
    cases hv : pick v index with
    | error e' =>
      rw [hv] at hpick
      exact .inl ⟨e, rfl, hpick.symm⟩
    | ok b =>
      rw [hv] at hpick
      cases hpick
  | ok a =>
    rw [hu] at hpick
    cases hv : pick v index with
    | error e =>
      rw [hv] at hpick
      cases hpick
    | ok b =>
      rw [hv] at hpick
      have hab := Except.ok.inj hpick
      cases a with
      | none =>
        cases b with
        | none => exact .inr (.inl ⟨rfl, rfl⟩)
        | some b => cases hab
      | some a =>
        cases b with
        | none => cases hab
        | some b => exact .inr (.inr ⟨a, b, rfl, rfl, Option.some.inj hab⟩)

/-! ### One index after the other -/

/-- Picks with one index after the other, each from what `pass` makes of what the last one
gave; an index outside its list gives the empty value. -/
def pickInTurn (pass : Value → Value) (listed : Value) : List Value → Except IndexError Value
  | [] => .ok listed
  | index :: rest =>
    (pick listed index).bind fun found => pickInTurn pass (pass (found.getD .empty)) rest

/-- An index is outside its list, and one of those behind it is no index into any list. -/
def Overlooks (listed : Value) : List Value → Prop
  | [] => False
  | index :: rest =>
    match pick listed index with
    | .error _ => False
    | .ok none => ∃ later ∈ rest, ∃ e, Refuses later e
    | .ok (some element) => Overlooks element rest

section InTurn

variable {pass : Value → Value} (hpass : ∀ v, (pass v).plain = v.plain)
include hpass

/-- From the empty value on it is the first refused index that counts. -/
theorem pickInTurn_empty (h : u.plain = Value.empty.plain) (indices : List Value) :
    (∃ v, pickInTurn pass u indices = .ok v ∧ v.plain = Value.empty.plain ∧
        ¬∃ later ∈ indices, ∃ e, Refuses later e) ∨
      ∃ later ∈ indices, ∃ e, Refuses later e ∧ pickInTurn pass u indices = .error e := by
  induction indices generalizing u with
  | nil => exact .inl ⟨u, rfl, h, by simp⟩
  | cons index rest ih =>
    rw [pickInTurn]
    rcases pick_empty index with ⟨e, he, hempty⟩ | ⟨hindex, hempty⟩
    · rcases pick_cases h index with ⟨e', hu, he'⟩ | ⟨-, he'⟩ | ⟨a, b, -, he', -⟩
      · obtain rfl := Except.error.inj (he'.symm.trans hempty)
        exact .inr ⟨index, List.mem_cons_self, _, he, by rw [hu]; rfl⟩
      · cases he'.symm.trans hempty
      · cases he'.symm.trans hempty
    · rcases pick_cases h index with ⟨e, -, he⟩ | ⟨hu, -⟩ | ⟨a, b, -, he, -⟩
      · cases he.symm.trans hempty
      · rw [hu]
        refine (ih (u := pass .empty) (hpass _)).imp ?_ ?_
        · rintro ⟨v, hv, hplain, hnone⟩
          exact ⟨v, hv, hplain, by simpa [hindex] using hnone⟩
        · rintro ⟨later, hmem, hlater⟩
          exact ⟨later, List.mem_cons_of_mem _ hmem, hlater⟩
      · cases he.symm.trans hempty

/-- **Picking in turn is picking at once**, as far as texts go, unless a refused index is
overlooked. -/
theorem pickInTurn_cases (h : u.plain = v.plain) (indices : List Value) :
    (¬Overlooks v indices ∧ (pickInTurn pass u indices).map Value.plain =
        (pickEach v indices).map Value.plain) ∨
      (Overlooks v indices ∧ pickEach v indices = .ok .empty ∧
        ∃ later ∈ indices.tail, ∃ e, Refuses later e ∧ pickInTurn pass u indices = .error e) := by
  induction indices generalizing u v with
  | nil => exact .inl ⟨id, congrArg Except.ok h⟩
  | cons index rest ih =>
    rw [pickInTurn, pickEach, Overlooks]
    rcases pick_cases h index with ⟨e, hu, hv⟩ | ⟨hu, hv⟩ | ⟨a, b, hu, hv, hab⟩
    · rw [hu, hv]
      exact .inl ⟨id, rfl⟩
    · rw [hu, hv]
      refine (pickInTurn_empty hpass (u := pass .empty) (hpass _) rest).imp ?_ ?_
      · rintro ⟨r, hr, hplain, hnone⟩
        exact ⟨hnone, (congrArg (Except.map Value.plain) hr).trans (congrArg Except.ok hplain)⟩
      · rintro ⟨later, hmem, e, hlater, hr⟩
        exact ⟨⟨later, hmem, e, hlater⟩, rfl, later, hmem, e, hlater, hr⟩
    · rw [hu, hv]
      refine (ih (u := pass a) (v := b) ((hpass a).trans hab)).imp_right ?_
      rintro ⟨hover, hempty, later, hmem, hlater⟩
      exact ⟨hover, hempty, later, List.mem_of_mem_tail hmem, hlater⟩

end InTurn

/-! ### The command -/

/-- How indexing ends: with a status and a text in the result register, or at an overflow. -/
inductive Indexed where
  | ended (status : Status) (text : String)
  | overflow (cause : Overflow)

/-- The end that picking leads to. -/
def indexed : Except IndexError Value → Indexed
  | .ok v => .ended .ok v.str
  | .error (.overflow cause) => .overflow cause
  | .error e => .ended .error e.message

theorem indexed_eq_of_map_plain {x y : Except IndexError Value}
    (h : x.map Value.plain = y.map Value.plain) : indexed x = indexed y := by
  cases x with
  | error e =>
    cases y with
    | error e' =>
      obtain rfl := Except.error.inj h
      rfl
    | ok v' => cases h
  | ok v =>
    cases y with
    | error e' => cases h
    | ok v' =>
      have hstr : v.str = v'.str := Value.text.inj (Except.ok.inj h)
      rw [indexed, indexed, hstr]

/-- The program ends so, whatever calls do, and leaves everything but the result register of
the interpreter as it was. -/
def Leaves (p : Program Status) (i : Nat) (w : World) : Indexed → Prop
  | .ended status text => ∃ r : Value, p.Does w (pure status) (w.withResult i r) ∧ r.str = text
  | .overflow cause => p.Does w (.overflow cause) w

variable {p q : Program Status} {i : Nat} {w : World}

theorem does_overflow (cause : Overflow) (w w' : World) :
    (Program.overflow cause : Program Status).Does w (.overflow cause) w' := by
  intro handler e
  cases e with
  | reply s v => exact iff_of_false Program.not_runs_overflow Program.not_runs_overflow
  | overflow o => exact Program.breaks_overflow_iff.trans Program.breaks_overflow_iff.symm

theorem Leaves.of_does {v : Value} {a : Indexed} (h : p.Does w q (w.withResult i v))
    (hq : Leaves q i (w.withResult i v) a) : Leaves p i w a := by
  cases a with
  | ended status text =>
    obtain ⟨r, hr, htext⟩ := hq
    rw [World.withResult_withResult] at hr
    exact ⟨r, h.trans hr, htext⟩
  | overflow cause => exact (h.trans hq).trans (does_overflow cause _ _)

/-- A program ends in one way. -/
theorem Leaves.unique {a b : Indexed} (ha : Leaves p i w a) (hb : Leaves p i w b) : a = b := by
  have hbreaks : ∀ {o : Overflow}, p.Does w (.overflow o) w →
      Program.Breaks Scenario.handle p w o := fun h => (h _ (.overflow _)).2 (.overflow _ _)
  cases a with
  | ended status text =>
    obtain ⟨r, hr, rfl⟩ := ha
    cases b with
    | ended status' text' =>
      obtain ⟨r', hr', rfl⟩ := hb
      obtain ⟨rfl, hworld⟩ := Program.Does.unique hr hr'
      have hresult := congrArg (fun w => (World.interpreter w i).result) hworld
      rw [World.interpreter_withResult, World.interpreter_withResult] at hresult
      obtain rfl : r' = r := hresult
      rfl
    | overflow o => exact absurd (hbreaks hb) hr.runs.not_breaks
  | overflow o =>
    cases b with
    | ended status text =>
      obtain ⟨r, hr, rfl⟩ := hb
      exact absurd (hbreaks ha) hr.runs.not_breaks
    | overflow o' =>
      exact congrArg _ (Program.breaks_overflow_iff.1 ((ha _ (.overflow _)).1 (hbreaks hb))).symm

theorem leaves_runLindex (i : Nat) (command listed : Value) (indices : List Value) (w : World) :
    Leaves (run .lindex i (command :: listed :: indices)) i w
      (indexed (pickEach listed indices)) := by
  change Leaves (match pickEach listed indices with
    | .ok v => answer i v
    | .error (.overflow cause) => .overflow cause
    | .error e => Interp.fail i e.message : Program Status) _ _ _
  cases pickEach listed indices with
  | ok v => exact ⟨v, does_answer i v w, rfl⟩
  | error e =>
    cases e with
    | overflow cause => exact does_overflow cause w w
    | access cause => exact ⟨_, Interp.does_fail i _ w, rfl⟩
    | badIndex found => exact ⟨_, Interp.does_fail i _ w, rfl⟩

/-- `lindex` with one index after the other, each on what `pass` makes of the result before,
up to the first that fails. -/
def lindexInTurn (pass : Value → Value) (i : Nat) (command listed : Value) :
    List Value → Program Status
  | [] => return .ok
  | index :: rest => do
    match ← run .lindex i [command, listed, index] with
    | .ok => lindexInTurn pass i command (pass (← Interp.result i)) rest
    | status => return status

theorem pickEach_singleton (listed index : Value) :
    pickEach listed [index] = (pick listed index).map (·.getD .empty) := by
  rw [pickEach]
  cases pick listed index with
  | error e => rfl
  | ok found => cases found <;> rfl

/-- `lindex` with one index gives what is picked, or nothing. -/
theorem does_lindex_of_pick {command listed index : Value} {found : Option Value}
    (h : pick listed index = .ok found) (w : World) :
    (run .lindex i [command, listed, index]).Does w (pure .ok)
      (w.withResult i (found.getD .empty)) := by
  change (match pickEach listed [index] with
    | .ok v => answer i v
    | .error (.overflow cause) => .overflow cause
    | .error e => Interp.fail i e.message : Program Status).Does _ _ _
  rw [pickEach_singleton, h]
  exact does_answer i _ w

/-- One round: the rest of the indices is used on what is picked with the first one. -/
theorem does_lindexInTurn {pass : Value → Value} {command listed index : Value}
    {found : Option Value} (h : pick listed index = .ok found) (rest : List Value) (w : World) :
    (lindexInTurn pass i command listed (index :: rest)).Does w
      (lindexInTurn pass i command (pass (found.getD .empty)) rest)
      (w.withResult i (found.getD .empty)) := by
  refine ((does_lindex_of_pick h w).bind _).trans ?_
  have hresult : ((w.withResult i (found.getD .empty)).interpreter i).result =
      found.getD .empty := by rw [World.interpreter_withResult]
  refine (Program.Does.reading _ _ _).trans ?_
  rw [hresult]
  exact .refl _ _

/-- A round that picks nothing is the last one. -/
theorem leaves_lindexInTurn_of_error {pass : Value → Value} {command listed index : Value}
    {e : IndexError} (h : pick listed index = .error e) (rest : List Value) (w : World) :
    Leaves (lindexInTurn pass i command listed (index :: rest)) i w (indexed (.error e)) := by
  have hone := leaves_runLindex i command listed [index] w
  rw [pickEach_singleton, h] at hone
  cases e with
  | overflow cause => exact Program.Does.bind_congr hone _
  | access cause =>
    obtain ⟨r, hr, htext⟩ := hone
    exact ⟨r, hr.bind _, htext⟩
  | badIndex found =>
    obtain ⟨r, hr, htext⟩ := hone
    exact ⟨r, hr.bind _, htext⟩

theorem leaves_lindexInTurn {pass : Value → Value} (hpass : ∀ v, (pass v).str = v.str) (i : Nat)
    (command listed index : Value) (indices : List Value) (w : World) :
    Leaves (lindexInTurn pass i command listed (index :: indices)) i w
      (indexed (pickInTurn pass listed (index :: indices))) := by
  induction indices generalizing listed index w with
  | nil =>
    rw [pickInTurn]
    cases hpick : pick listed index with
    | error e => exact leaves_lindexInTurn_of_error hpick [] w
    | ok found => exact ⟨_, does_lindexInTurn hpick [] w, (hpass _).symm⟩
  | cons next rest ih =>
    rw [pickInTurn]
    cases hpick : pick listed index with
    | error e => exact leaves_lindexInTurn_of_error hpick _ w
    | ok found => exact .of_does (does_lindexInTurn hpick _ w) (ih _ next _)

/-- **Several indices are one index after the other.**  `lindex` with several indices comes to
an end, and so does `lindex` with one of them at a time, the next one on the result of the
last one or on the text of that result.  Unless an index outside its list has one behind it
that is no index into any list, both end with the same status and the same text, or at the
same overflow.  If it has, `lindex` ends with the empty text, and the other one at the first
of them. -/
theorem lindex_in_turn {pass : Value → Value} (hpass : ∀ v, (pass v).str = v.str) (i : Nat)
    (command listed index : Value) (indices : List Value) (w : World) :
    ∃ a b, Leaves (run .lindex i (command :: listed :: index :: indices)) i w a ∧
      Leaves (lindexInTurn pass i command listed (index :: indices)) i w b ∧
      (¬Overlooks listed (index :: indices) → b = a) ∧
      (Overlooks listed (index :: indices) → a = .ended .ok "" ∧
        ∃ later ∈ indices, ∃ e, Refuses later e ∧ b = indexed (.error e)) := by
  have hpass' : ∀ v, (pass v).plain = v.plain := fun v => congrArg Value.text (hpass v)
  refine ⟨_, _, leaves_runLindex i command listed (index :: indices) w,
    leaves_lindexInTurn hpass i command listed index indices w, ?_⟩
  rcases pickInTurn_cases hpass' (u := listed) rfl (index :: indices) with
    ⟨hover, heq⟩ | ⟨hover, hempty, later, hmem, e, hlater, herror⟩
  · exact ⟨fun _ => indexed_eq_of_map_plain heq, fun h => absurd h hover⟩
  · refine ⟨fun h => absurd hover h, fun _ => ?_⟩
    rw [herror, hempty]
    exact ⟨rfl, later, hmem, e, hlater, rfl⟩

/-- An element of an element, from the text of the first result. -/
theorem lindex_in_turn_nested :
    (∀ v : Value, v.plain.str = v.str) ∧
      Leaves (run .lindex 0 [.text "lindex", .list [.text "a", .list [.text "b", .text "c"]],
        .int 1, .int 0]) 0 {} (.ended .ok "b") ∧
      Leaves (lindexInTurn Value.plain 0 (.text "lindex")
        (.list [.text "a", .list [.text "b", .text "c"]]) [.int 1, .int 0]) 0 {}
        (.ended .ok "b") := by
  have hone : indexPosition (.int 1) 2 = .ok 1 := by decide +kernel
  have hzero : indexPosition (.int 0) 2 = .ok 0 := by decide +kernel
  have hb : pick (.list [.text "b", .text "c"]) (.int 0) = .ok (some (.text "b")) := by
    simp [pick, Value.getList, hzero]
  have hbc : pick (.list [.text "a", .list [.text "b", .text "c"]]) (.int 1) =
      .ok (some (.list [.text "b", .text "c"])) := by
    simp [pick, Value.getList, hone]
  have hover : ¬Overlooks (.list [.text "a", .list [.text "b", .text "c"]]) [.int 1, .int 0] := by
    simp [Overlooks, hb, hbc]
  have honce := leaves_runLindex 0 (.text "lindex")
    (.list [.text "a", .list [.text "b", .text "c"]]) [.int 1, .int 0] {}
  have hpicked : pickEach (.list [.text "a", .list [.text "b", .text "c"]]) [.int 1, .int 0] =
      .ok (.text "b") := by simp [pickEach, hb, hbc]
  rw [hpicked] at honce
  have hplain : ∀ v : Value, v.plain.str = v.str := fun _ => rfl
  obtain ⟨a, b, h, h', hsame, -⟩ := lindex_in_turn hplain 0
    (.text "lindex") (.list [.text "a", .list [.text "b", .text "c"]]) (.int 1) [.int 0] {}
  obtain rfl := honce.unique h
  obtain rfl := hsame hover
  exact ⟨hplain, h, h'⟩

/-- Behind an index outside its list a malformed one is not looked at. -/
theorem malformed_overlooked :
    Leaves (run .lindex 0 [.text "lindex", .list [.text "a", .text "b"], .int 5, .text "foo"])
        0 {} (.ended .ok "") ∧
      Leaves (lindexInTurn id 0 (.text "lindex") (.list [.text "a", .text "b"])
        [.int 5, .text "foo"]) 0 {} (.ended .error (IndexError.badIndex "foo").message) := by
  have hfive : indexPosition (.int 5) 2 = .ok 5 := by decide +kernel
  have hfoo : indexPosition (.text "foo") 0 = .error .malformed := by decide +kernel
  have htrim : Text.trim "foo" = "foo" := by decide +kernel
  have hfirst : pick (.list [.text "a", .text "b"]) (.int 5) = .ok none := by
    simp [pick, Value.getList, hfive]
  have hsecond : pick .empty (.text "foo") = .error (.badIndex "foo") := by
    have hempty : Value.empty.getList = .ok [] := rfl
    simp only [pick, hempty, List.length_nil, hfoo, Value.str, htrim]
  have honce := leaves_runLindex 0 (.text "lindex") (.list [.text "a", .text "b"])
    [.int 5, .text "foo"] {}
  rw [pickEach, hfirst] at honce
  exact ⟨honce, .of_does (does_lindexInTurn hfirst _ {})
    (leaves_lindexInTurn_of_error hsecond [] _)⟩

end Builtin
end CommandBridge
