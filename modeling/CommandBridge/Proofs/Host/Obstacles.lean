/-
# What a walk through a table meets

A place in a value is a list of indexes into array regions, outermost first
(`valueAt?`).  In the order of words places come as a walk meets them that goes
depth first and from left to right: a table before what it holds, and everything
at an index before everything at the next one.

A walk that converts what it meets is stopped by an obstacle (`Obstacle`): a
table that is on the way to itself, a function or an object.  A value without
obstacles is one that is convertible (`convertible_iff`).  What the walk reports is
the obstacle that comes first (`FirstObstacle`), and of these there is at most one
(`FirstObstacle.unique`).
-/

import CommandBridge.Bridge.Error
import CommandBridge.Proofs.Host.Graph
import Mathlib.Data.List.Lex

namespace CommandBridge
namespace Heap

/-! ### Places -/

/-- The value at a place. -/
def valueAt? (h : Heap) : HostValue → List Nat → Option HostValue
  | v, [] => some v
  | .table id, n :: p => (h.table id).array[n]?.bind (valueAt? h · p)
  | _, _ :: _ => none

variable {h : Heap} {v w : HostValue} {p q : List Nat}

theorem valueAt?_nil (h : Heap) (v : HostValue) : h.valueAt? v [] = some v := by
  rw [valueAt?]

theorem valueAt?_cons_eq_some_iff {n : Nat} :
    h.valueAt? v (n :: p) = some w ↔
      ∃ id u, v = .table id ∧ (h.table id).array[n]? = some u ∧ h.valueAt? u p = some w := by
  cases v with
  | table id => simp [valueAt?, Option.bind_eq_some_iff]
  | _ => simp [valueAt?]

theorem valueAt?_append (h : Heap) (v : HostValue) (p q : List Nat) :
    h.valueAt? v (p ++ q) = (h.valueAt? v p).bind (h.valueAt? · q) := by
  induction p generalizing v with
  | nil => rw [List.nil_append, valueAt?_nil, Option.bind_some]
  | cons n p ih =>
    cases v with
    | table id =>
      rw [List.cons_append, valueAt?, valueAt?, Option.bind_assoc]
      congr 1
      exact funext ih
    | _ => rfl

/-- A value holds what is at its places of one index. -/
theorem holds_iff : h.Holds v w ↔ ∃ n, h.valueAt? v [n] = some w := by
  simp only [Holds, valueAt?_cons_eq_some_iff, valueAt?_nil, Option.some.injEq,
    List.mem_iff_getElem?]
  constructor
  · rintro ⟨id, rfl, n, hn⟩
    exact ⟨n, id, w, rfl, hn, rfl⟩
  · rintro ⟨n, id, u, rfl, hn, rfl⟩
    exact ⟨id, rfl, n, hn⟩

theorem transGen_of_valueAt? (hp : h.valueAt? v p = some w) (hne : p ≠ []) :
    Relation.TransGen h.Holds v w := by
  induction p generalizing v with
  | nil => exact absurd rfl hne
  | cons n p ih =>
    obtain ⟨id, u, rfl, hn, hu⟩ := valueAt?_cons_eq_some_iff.1 hp
    have hhold : h.Holds (.table id) u := ⟨id, rfl, List.mem_of_getElem? hn⟩
    cases p with
    | nil =>
      rw [valueAt?_nil, Option.some.injEq] at hu
      exact hu ▸ .single hhold
    | cons m p => exact .head hhold (ih hu (List.cons_ne_nil m p))

/-- What lies strictly below a value is at one of its other places. -/
theorem transGen_iff :
    Relation.TransGen h.Holds v w ↔ ∃ p, p ≠ [] ∧ h.valueAt? v p = some w := by
  refine ⟨fun hvw => ?_, fun ⟨p, hne, hp⟩ => transGen_of_valueAt? hp hne⟩
  induction hvw with
  | single hw =>
    obtain ⟨n, hn⟩ := holds_iff.1 hw
    exact ⟨[n], List.cons_ne_nil n [], hn⟩
  | tail _ hw ih =>
    obtain ⟨p, -, hp⟩ := ih
    obtain ⟨n, hn⟩ := holds_iff.1 hw
    exact ⟨p ++ [n], by simp, by rw [valueAt?_append, hp, Option.bind_some, hn]⟩

/-- What a value reaches is what is at its places. -/
theorem reaches_iff : h.Reaches v w ↔ ∃ p, h.valueAt? v p = some w := by
  rw [Reaches, Relation.reflTransGen_iff_eq_or_transGen, transGen_iff]
  constructor
  · rintro (rfl | ⟨p, -, hp⟩)
    · exact ⟨[], valueAt?_nil h w⟩
    · exact ⟨p, hp⟩
  · rintro ⟨p, hp⟩
    cases p with
    | nil => exact .inl (Option.some.inj ((valueAt?_nil h v).symm.trans hp)).symm
    | cons n p => exact .inr ⟨n :: p, List.cons_ne_nil n p, hp⟩

/-! ### Obstacles -/

/-- A place that cannot be converted, with the reason, when the tables of `way`
are on the way to the value. -/
inductive Obstacle (h : Heap) (way : List Nat) (v : HostValue) :
    List Nat → ConversionError → Prop
  | function {p : List Nat} {id : Nat} (hp : h.valueAt? v p = some (.function id)) :
      Obstacle h way v p (.noCounterpart (HostValue.function id).typeName)
  | object {p : List Nat} {id : Nat} (hp : h.valueAt? v p = some (.object id)) :
      Obstacle h way v p (.noCounterpart (HostValue.object id).typeName)
  /-- A table that is on the way to the value. -/
  | outside {p : List Nat} {id : Nat} (hid : id ∈ way)
      (hp : h.valueAt? v p = some (.table id)) : Obstacle h way v p .recursiveTable
  /-- A table that is on the way inside the value. -/
  | inside {q r : List Nat} {id : Nat} (hq : h.valueAt? v q = some (.table id)) (hr : r ≠ [])
      (hp : h.valueAt? v (q ++ r) = some (.table id)) : Obstacle h way v (q ++ r) .recursiveTable

/-- The obstacle that a walk meets before all others. -/
def FirstObstacle (h : Heap) (way : List Nat) (v : HostValue) (p : List Nat)
    (e : ConversionError) : Prop :=
  h.Obstacle way v p e ∧ ∀ q e', h.Obstacle way v q e' → ¬ q < p

variable {way : List Nat} {e : ConversionError}

/-- At an obstacle there is a table, a function or an object, and this says which
obstacle it is. -/
theorem Obstacle.cause (ho : h.Obstacle way v p e) :
    ∃ w, h.valueAt? v p = some w ∧
      ((∃ id, w = .table id) ∧ e = .recursiveTable ∨
        ((∃ id, w = .function id) ∨ ∃ id, w = .object id) ∧ e = .noCounterpart w.typeName) := by
  cases ho with
  | function hp => exact ⟨_, hp, .inr ⟨.inl ⟨_, rfl⟩, rfl⟩⟩
  | object hp => exact ⟨_, hp, .inr ⟨.inr ⟨_, rfl⟩, rfl⟩⟩
  | outside _ hp => exact ⟨_, hp, .inl ⟨⟨_, rfl⟩, rfl⟩⟩
  | inside _ _ hp => exact ⟨_, hp, .inl ⟨⟨_, rfl⟩, rfl⟩⟩

/-- Data has no obstacles. -/
theorem Obstacle.kind (ho : h.Obstacle way v p e) :
    (∃ id, v = .table id) ∨ (∃ id, v = .function id) ∨ ∃ id, v = .object id := by
  obtain ⟨w, hw, hkind⟩ := ho.cause
  cases p with
  | cons n p =>
    obtain ⟨id, -, rfl, -⟩ := valueAt?_cons_eq_some_iff.1 hw
    exact .inl ⟨id, rfl⟩
  | nil =>
    obtain rfl := Option.some.inj ((valueAt?_nil h v).symm.trans hw)
    exact hkind.imp And.left And.left

/-- There is one reason why a place is an obstacle. -/
theorem Obstacle.unique {e' : ConversionError} (ho : h.Obstacle way v p e)
    (ho' : h.Obstacle way v p e') : e = e' := by
  obtain ⟨w, hw, hkind⟩ := ho.cause
  obtain ⟨w', hw', hkind'⟩ := ho'.cause
  obtain rfl := Option.some.inj (hw.symm.trans hw')
  rcases hkind with ⟨⟨id, rfl⟩, rfl⟩ | ⟨⟨id, rfl⟩ | ⟨id, rfl⟩, rfl⟩ <;>
    rcases hkind' with ⟨⟨k, hk⟩, rfl⟩ | ⟨⟨k, hk⟩ | ⟨k, hk⟩, rfl⟩ <;> first | rfl | cases hk

theorem FirstObstacle.unique {e' : ConversionError} (ho : h.FirstObstacle way v p e)
    (ho' : h.FirstObstacle way v q e') : p = q ∧ e = e' := by
  rcases lt_trichotomy p q with hlt | rfl | hlt
  · exact absurd hlt (ho'.2 p e ho.1)
  · exact ⟨rfl, ho.1.unique ho'.1⟩
  · exact absurd hlt (ho.2 q e' ho'.1)

/-- Only a table that is on the way to it makes a value an obstacle to itself,
functions and objects apart. -/
theorem obstacle_table_nil_iff {id : Nat} :
    h.Obstacle way (.table id) [] e ↔ id ∈ way ∧ e = .recursiveTable := by
  refine ⟨fun ho => ?_, fun ⟨hid, he⟩ => he ▸ .outside hid (valueAt?_nil h _)⟩
  generalize hp : ([] : List Nat) = p at ho
  cases ho with
  | function hv => subst hp; simp [valueAt?_nil] at hv
  | object hv => subst hp; simp [valueAt?_nil] at hv
  | outside hid hv =>
    subst hp
    obtain rfl : id = _ := by simpa [valueAt?_nil] using hv
    exact ⟨hid, rfl⟩
  | inside _ hr _ => exact absurd (List.append_eq_nil_iff.1 hp.symm).2 hr

/-- Below a table the obstacles are those of what it holds, with the table on the
way. -/
theorem obstacle_cons_iff {n : Nat} :
    h.Obstacle way v (n :: p) e ↔
      ∃ id w, v = .table id ∧ (h.table id).array[n]? = some w ∧ h.Obstacle (id :: way) w p e := by
  constructor
  · intro ho
    obtain ⟨u, hu, -⟩ := ho.cause
    obtain ⟨id, w, rfl, hw, -⟩ := valueAt?_cons_eq_some_iff.1 hu
    refine ⟨id, w, rfl, hw, ?_⟩
    have hinner : ∀ q, h.valueAt? (.table id) (n :: q) = h.valueAt? w q := fun q => by
      rw [valueAt?, hw, Option.bind_some]
    generalize hp : n :: p = p' at ho
    cases ho with
    | function hv => subst hp; exact .function (hinner p ▸ hv)
    | object hv => subst hp; exact .object (hinner p ▸ hv)
    | outside hid hv => subst hp; exact .outside (List.mem_cons_of_mem id hid) (hinner p ▸ hv)
    | @inside q r k hq hr hv =>
      cases q with
      | nil =>
        obtain rfl : id = k := by simpa [valueAt?_nil] using hq
        rw [List.nil_append] at hp hv
        subst hp
        exact .outside List.mem_cons_self (hinner p ▸ hv)
      | cons m q =>
        obtain ⟨rfl, rfl⟩ := List.cons.inj hp
        exact .inside (hinner q ▸ hq) hr (hinner (q ++ r) ▸ hv)
  · rintro ⟨id, w, rfl, hw, ho⟩
    have hinner : ∀ q, h.valueAt? (.table id) (n :: q) = h.valueAt? w q := fun q => by
      rw [valueAt?, hw, Option.bind_some]
    cases ho with
    | function hv => exact .function ((hinner p).trans hv)
    | object hv => exact .object ((hinner p).trans hv)
    | outside hid hv =>
      rcases List.mem_cons.1 hid with rfl | hid
      · exact .inside (q := []) (valueAt?_nil h _) (List.cons_ne_nil n p) ((hinner p).trans hv)
      · exact .outside hid ((hinner p).trans hv)
    | @inside q r _ hq hr hv =>
      exact .inside (q := n :: q) ((hinner q).trans hq) hr ((hinner (q ++ r)).trans hv)

/-- An obstacle of the value itself comes first. -/
theorem Obstacle.first (ho : h.Obstacle way v [] e) : h.FirstObstacle way v [] e :=
  ⟨ho, fun q _ _ => List.not_lt_nil q⟩

section Below

variable {id : Nat}

theorem no_obstacle_table (hid : id ∉ way)
    (hno : ∀ w ∈ (h.table id).array, ∀ p e, ¬ h.Obstacle (id :: way) w p e) (p : List Nat)
    (e : ConversionError) : ¬ h.Obstacle way (.table id) p e := by
  intro ho
  cases p with
  | nil => exact hid (obstacle_table_nil_iff.1 ho).1
  | cons n p =>
    obtain ⟨k, w, hk, hw, ho⟩ := obstacle_cons_iff.1 ho
    obtain rfl := HostValue.table.inj hk
    exact hno w (List.mem_of_getElem? hw) p e ho

/-- The first obstacle of a table is the first one in the first value that has any. -/
theorem FirstObstacle.below {n : Nat} (hid : id ∉ way) (hw : (h.table id).array[n]? = some w)
    (ho : h.FirstObstacle (id :: way) w p e)
    (hno : ∀ m < n, ∀ u, (h.table id).array[m]? = some u →
      ∀ p e, ¬ h.Obstacle (id :: way) u p e) :
    h.FirstObstacle way (.table id) (n :: p) e := by
  refine ⟨obstacle_cons_iff.2 ⟨id, w, rfl, hw, ho.1⟩, fun q e' ho' hlt => ?_⟩
  cases q with
  | nil => exact hid (obstacle_table_nil_iff.1 ho').1
  | cons m q =>
    obtain ⟨k, u, hk, hu, ho'⟩ := obstacle_cons_iff.1 ho'
    obtain rfl := HostValue.table.inj hk
    rcases List.cons_lt_cons_iff.1 hlt with hm | ⟨rfl, hq⟩
    · exact hno m hm u hu q e' ho'
    · rw [hw, Option.some.injEq] at hu
      exact ho.2 q e' (hu ▸ ho') hq

end Below

/-- **A value is convertible if and only if nothing in it is an obstacle.** -/
theorem convertible_iff : h.Convertible v ↔ ∀ p e, ¬ h.Obstacle [] v p e := by
  constructor
  · intro hv p e ho
    cases ho with
    | function hp => exact hv.no_function _ (reaches_iff.2 ⟨p, hp⟩)
    | object hp => exact hv.no_object _ (reaches_iff.2 ⟨p, hp⟩)
    | outside hid => exact absurd hid List.not_mem_nil
    | @inside q r id hq hr hp =>
      rw [valueAt?_append, hq, Option.bind_some] at hp
      exact hv.acyclic _ (reaches_iff.2 ⟨q, hq⟩) (transGen_iff.2 ⟨r, hr, hp⟩)
  · intro hno
    refine ⟨fun w hw hcyc => ?_, fun id hid => ?_, fun id hid => ?_⟩
    · obtain ⟨q, hq⟩ := reaches_iff.1 hw
      obtain ⟨r, hr, hp⟩ := transGen_iff.1 hcyc
      obtain ⟨_, ⟨id, rfl, -⟩, -⟩ := Relation.TransGen.head'_iff.1 hcyc
      exact hno _ _ (.inside hq hr (by rw [valueAt?_append, hq, Option.bind_some, hp]))
    · obtain ⟨p, hp⟩ := reaches_iff.1 hid
      exact hno p _ (.function hp)
    · obtain ⟨p, hp⟩ := reaches_iff.1 hid
      exact hno p _ (.object hp)

end Heap
end CommandBridge
