/-
# The graph of a heap

Through their array regions tables hold values, other tables among them.  A value
is plain data (`Convertible`) if no table that it reaches in this way reaches
itself, and nothing that it reaches is a function or an object.

A heap grows (`Extends`) when tables are added and those that were there stay as
they are.  It is closed (`Closed`) if no table holds one that is missing, and it stays so
when tables are added and written to (`Closed.addTable`, `Closed.write`).
-/

import CommandBridge.Host.Heap
import CommandBridge.Proofs.Host.Regions
import Mathlib.Logic.Relation

namespace CommandBridge
namespace Heap

/-- The first value is a table that holds the second one in its array region. -/
def Holds (h : Heap) (v w : HostValue) : Prop :=
  ∃ id, v = .table id ∧ w ∈ (h.table id).array

/-- The second value is the first one or lies in it at some depth. -/
def Reaches (h : Heap) : HostValue → HostValue → Prop :=
  Relation.ReflTransGen h.Holds

/-- A value without cycles, functions and objects in the array regions below it. -/
structure Convertible (h : Heap) (v : HostValue) : Prop where
  acyclic : ∀ w, h.Reaches v w → ¬ Relation.TransGen h.Holds w w
  no_function : ∀ id, ¬ h.Reaches v (.function id)
  no_object : ∀ id, ¬ h.Reaches v (.object id)

theorem Convertible.of_holds {h : Heap} {v w : HostValue} (hv : h.Convertible v)
    (hw : h.Holds v w) : h.Convertible w where
  acyclic := fun u hu => hv.acyclic u (.head hw hu)
  no_function := fun id hu => hv.no_function id (.head hw hu)
  no_object := fun id hu => hv.no_object id (.head hw hu)

/-- A table is not below what it holds. -/
theorem Convertible.not_reaches {h : Heap} {v w : HostValue} (hv : h.Convertible v)
    (hw : h.Holds v w) : ¬ h.Reaches w v :=
  fun hu => hv.acyclic v .refl (.head' hw hu)

/-- Neither a function nor an object is convertible, and nothing else is needed for
a value than that all that it holds is convertible. -/
theorem convertible_of_holds {h : Heap} {v : HostValue} (hf : ∀ id, v ≠ .function id)
    (ho : ∀ id, v ≠ .object id) (hv : ∀ w, h.Holds v w → h.Convertible w) : h.Convertible v := by
  have hbelow : ∀ u, h.Reaches v u → u = v ∨ ∃ w, h.Holds v w ∧ h.Reaches w u := fun u hu =>
    (Relation.ReflTransGen.cases_head hu).imp_left Eq.symm
  refine ⟨fun u hu hcyc => ?_, fun id hid => ?_, fun id hid => ?_⟩
  · rcases hbelow u hu with rfl | ⟨w, hw, hwu⟩
    · obtain ⟨w, hw, hback⟩ := Relation.TransGen.head'_iff.1 hcyc
      exact (hv w hw).acyclic u hback hcyc
    · exact (hv w hw).acyclic u hwu hcyc
  · rcases hbelow _ hid with heq | ⟨w, hw, hwid⟩
    · exact hf id heq.symm
    · exact (hv w hw).no_function id hwid
  · rcases hbelow _ hid with heq | ⟨w, hw, hwid⟩
    · exact ho id heq.symm
    · exact (hv w hw).no_object id hwid

/-- Only tables have anything below them. -/
theorem table_of_reaches {h : Heap} {v : HostValue} {id : Nat} (hv : h.Reaches v (.table id)) :
    ∃ k, v = .table k := by
  rcases Relation.ReflTransGen.cases_head hv with rfl | ⟨w, ⟨k, rfl, -⟩, -⟩
  · exact ⟨id, rfl⟩
  · exact ⟨k, rfl⟩

theorem table_eq {h : Heap} {id : Nat} {t : Table} (ht : h.tables.get? id = some t) :
    h.table id = t := by
  rw [table, Pool.get, ht, Option.getD_some]

/-- A heap whose tables hold only data and tables with smaller numbers has nothing
but convertible tables. -/
theorem convertible_of_lt {h : Heap}
    (hlt : ∀ v w, h.Holds v w → ∀ id, w = .table id → ∃ id', v = .table id' ∧ id < id')
    (hdata : ∀ v w, h.Holds v w → ∀ id, w ≠ .function id ∧ w ≠ .object id) (id : Nat) :
    h.Convertible (.table id) := by
  have hdown : ∀ v w, Relation.TransGen h.Holds v w →
      ∀ id, w = .table id → ∃ id', v = .table id' ∧ id < id' := by
    intro v w hvw
    induction hvw using Relation.TransGen.head_induction_on with
    | single hvw => exact hlt _ w hvw
    | head hvu huw ih =>
      intro id hid
      obtain ⟨k, rfl, hk⟩ := ih id hid
      obtain ⟨k', rfl, hk'⟩ := hlt _ _ hvu k rfl
      exact ⟨k', rfl, Nat.lt_trans hk hk'⟩
  have hend : ∀ w, h.Reaches (.table id) w → ∀ id, w ≠ .function id ∧ w ≠ .object id := by
    intro w hw
    rcases Relation.ReflTransGen.cases_tail hw with rfl | ⟨u, -, huw⟩
    · exact fun _ => ⟨nofun, nofun⟩
    · exact hdata u w huw
  refine ⟨fun w _ hcyc => ?_, fun k hk => (hend _ hk k).1 rfl, fun k hk => (hend _ hk k).2 rfl⟩
  obtain ⟨u, ⟨k, rfl, -⟩, -⟩ := Relation.TransGen.head'_iff.1 hcyc
  obtain ⟨k', hk', hlt'⟩ := hdown _ _ hcyc k rfl
  cases hk'
  exact Nat.lt_irrefl k hlt'

/-! ### Growing heaps -/

/-- What is there in the first heap is the same in the second. -/
structure Extends (h h' : Heap) : Prop where
  next_le : h.tables.next ≤ h'.tables.next
  get?_eq : ∀ id t, h.tables.get? id = some t → h'.tables.get? id = some t

theorem Extends.refl (h : Heap) : h.Extends h :=
  ⟨Nat.le_refl _, fun _ _ ht => ht⟩

theorem Extends.trans {h₁ h₂ h₃ : Heap} (h : h₁.Extends h₂) (h' : h₂.Extends h₃) :
    h₁.Extends h₃ :=
  ⟨Nat.le_trans h.next_le h'.next_le, fun id t ht => h'.get?_eq id t (h.get?_eq id t ht)⟩

theorem extends_addTable (h : Heap) (t : Table) : h.Extends (h.addTable t).2 := by
  refine ⟨Nat.le_succ _, fun id t' ht => ?_⟩
  have hne : h.tables.next ≠ id := by
    rintro rfl
    rw [Pool.get?_of_next_le (Nat.le_refl _)] at ht
    cases ht
  rw [addTable, Pool.get?_add, if_neg hne, ht]

theorem get?_addTable (h : Heap) (t : Table) :
    (h.addTable t).2.tables.get? h.tables.next = some t := by
  rw [addTable, Pool.get?_add, if_pos rfl]

/-- The value is no table that is not there. -/
def Has (h : Heap) (v : HostValue) : Prop :=
  ∀ id, v = .table id → ∃ t, h.tables.get? id = some t

/-- All that tables hold is there. -/
def Closed (h : Heap) : Prop :=
  ∀ id t, h.tables.get? id = some t → (∀ v ∈ t.array, h.Has v) ∧ ∀ p ∈ t.map, h.Has p.2

theorem Has.of_extends {h h' : Heap} {v : HostValue} (hv : h.Has v) (hx : h.Extends h') :
    h'.Has v := by
  intro id hid
  obtain ⟨t, ht⟩ := hv id hid
  exact ⟨t, hx.get?_eq id t ht⟩

theorem closed_empty : Closed {} :=
  fun _ _ ht => nomatch (Pool.get?_of_next_le (Nat.zero_le _)).symm.trans ht

/-- A table may be added that holds what is there. -/
theorem Closed.addTable {h : Heap} (hc : h.Closed) {t : Table} (harray : ∀ v ∈ t.array, h.Has v)
    (hmap : ∀ p ∈ t.map, h.Has p.2) : (h.addTable t).2.Closed := by
  have hx := extends_addTable h t
  intro id u hu
  rw [Heap.addTable, Pool.get?_add] at hu
  split at hu
  · obtain rfl := Option.some.inj hu
    exact ⟨fun v hv => (harray v hv).of_extends hx, fun p hp => (hmap p hp).of_extends hx⟩
  · obtain ⟨ha, hm⟩ := hc id u hu
    exact ⟨fun v hv => (ha v hv).of_extends hx, fun p hp => (hm p hp).of_extends hx⟩

theorem Has.setTable {h : Heap} {v : HostValue} (hv : h.Has v) (id : Nat) (t : Table) :
    (h.setTable id t).Has v := by
  rintro k rfl
  obtain ⟨u, hu⟩ := hv k rfl
  rw [Heap.setTable, Pool.get?_put]
  split
  · exact ⟨t, rfl⟩
  · exact ⟨u, hu⟩

/-- **A heap stays closed when what is there is written to a table.** -/
theorem Closed.write {h : Heap} (hc : h.Closed) {id : Nat} {t : Table}
    (ht : h.tables.get? id = some t) {w : TableWrite} (hw : h.Has w.value) :
    (h.setTable id (t.write w)).Closed := by
  have hnew : ∀ v, (t.write w).Contains v → (h.setTable id (t.write w)).Has v := by
    intro v hv
    refine Has.setTable ?_ id _
    rcases Table.contains_write hv with (hv | ⟨p, hp, rfl⟩) | rfl
    · exact (hc id t ht).1 v hv
    · exact (hc id t ht).2 p hp
    · exact hw
  intro k u hu
  rw [Heap.setTable, Pool.get?_put] at hu
  split at hu
  · obtain rfl := Option.some.inj hu
    exact ⟨fun v hv => hnew v (.inl hv), fun p hp => hnew p.2 (.inr ⟨p, hp, rfl⟩)⟩
  · obtain ⟨ha, hm⟩ := hc k u hu
    exact ⟨fun v hv => (ha v hv).setTable id _, fun p hp => (hm p hp).setTable id _⟩

end Heap
end CommandBridge
