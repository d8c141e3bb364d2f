/-
# To the interpreter and back

`toHost` builds a new table for every list, the inner ones first.  So the tables
of its result are as they were built in every heap that grows out of the heap
that it gives back, and they have greater numbers than all tables from before
(`toHost_fresh`).  Whoever looks at the result sees the view that the value shows
(`viewIn_toHost`), and whoever converts it gets what the value comes back as
(`convert_toHost_eq`), which shows the same (`convert_toHost`).

With `convert_of_convertible` this gives the round trip (`roundTrip`): a
convertible value comes back in its normal form, and from then on nothing
changes.
-/

import CommandBridge.Proofs.Host.Tables
import CommandBridge.Proofs.Marshal.Returned

namespace CommandBridge

namespace Heap

theorem viewIn_table {h : Heap} {path : List Nat} {id : Nat} {t : Table}
    (ht : h.tables.get? id = some t) (hp : path.contains id = false) :
    h.viewIn path (.table id) =
      .table (h.viewEachIn (id :: path) t.array) (h.viewPairsIn (id :: path) t.map) := by
  rw [viewIn]
  split
  · rename_i hp'
    rw [hp] at hp'
    cases hp'
  · rename_i ht'
    rw [ht] at ht'
    cases ht'
  · rename_i t' _ ht'
    obtain rfl : t = t' := Option.some.inj (ht.symm.trans ht')
    rfl

end Heap

namespace Marshal

/-! ### The values that `toHost` builds -/

theorem toHostEach_cons (h : Heap) (v : Value) (r : List Value) :
    toHostEach h (v :: r) =
      ((toHost h v).1 :: (toHostEach (toHost h v).2 r).1, (toHostEach (toHost h v).2 r).2) := by
  rw [toHostEach]

theorem isNil_toHost (h : Heap) (x : Value) : (toHost h x).1.isNil = false := by
  cases x <;> rw [toHost] <;> rfl

theorem isNil_toHostEach (h : Heap) (xs : List Value) :
    ∀ v ∈ (toHostEach h xs).1, v.isNil = false := by
  induction xs generalizing h with
  | nil => simp [toHostEach]
  | cons x r ih =>
    rw [toHostEach_cons]
    intro v hv
    rcases List.mem_cons.1 hv with rfl | hv
    · exact isNil_toHost h x
    · exact ih _ v hv

/-- A list becomes a new table of its elements. -/
theorem toHost_list (h : Heap) (elements : List Value) :
    toHost h (.list elements) =
      (toHostEach h elements).2.addTable ⟨(toHostEach h elements).1, []⟩ := by
  rw [toHost, ← Table.ofValues_eq (isNil_toHostEach h elements)]

mutual

theorem extends_toHost (h : Heap) : (x : Value) → h.Extends (toHost h x).2
  | .list elements => by
    rw [toHost_list]
    exact (extends_toHostEach h elements).trans (Heap.extends_addTable _ _)
  | .empty | .int _ | .double _ | .boolean _ | .bytes _ | .text _ | .foreign _ _ => by
    rw [toHost]
    exact .refl h

theorem extends_toHostEach (h : Heap) : (xs : List Value) → h.Extends (toHostEach h xs).2
  | [] => by
    rw [toHostEach]
    exact .refl h
  | x :: r => by
    rw [toHostEach_cons]
    exact (extends_toHost h x).trans (extends_toHostEach _ r)

end

/-- The new table of a list, in every heap that grows out of the one given back. -/
theorem get?_toHost_list {h h' : Heap} {elements : List Value}
    (hx : (toHost h (.list elements)).2.Extends h') :
    h'.tables.get? (toHostEach h elements).2.tables.next =
      some ⟨(toHostEach h elements).1, []⟩ := by
  rw [toHost_list] at hx
  exact hx.get?_eq _ _ (Heap.get?_addTable _ _)

/-- The elements were built before. -/
theorem extends_of_list {h h' : Heap} {elements : List Value}
    (hx : (toHost h (.list elements)).2.Extends h') : (toHostEach h elements).2.Extends h' := by
  rw [toHost_list] at hx
  exact (Heap.extends_addTable _ _).trans hx

/-- A number that lies beyond all new tables lies beyond the newest one. -/
theorem next_toHost_list (h : Heap) (elements : List Value) :
    (toHost h (.list elements)).2.tables.next = (toHostEach h elements).2.tables.next + 1 := by
  rw [toHost_list]
  rfl

section Below

variable {h h' : Heap} {elements : List Value} {ids : List Nat}

theorem not_contains_of_next_le
    (hids : ∀ id ∈ ids, (toHost h (.list elements)).2.tables.next ≤ id) :
    ids.contains (toHostEach h elements).2.tables.next = false := by
  rw [List.contains_eq_mem, decide_eq_false_iff_not]
  intro hm
  have := hids _ hm
  rw [next_toHost_list] at this
  omega

/-- Neither the newest table nor what lies beyond it is among the tables of the
elements. -/
theorem next_le_of_cons
    (hids : ∀ id ∈ ids, (toHost h (.list elements)).2.tables.next ≤ id) :
    ∀ id ∈ (toHostEach h elements).2.tables.next :: ids,
      (toHostEach h elements).2.tables.next ≤ id := by
  intro id hm
  rcases List.mem_cons.1 hm with rfl | hm
  · exact Nat.le_refl _
  · have := hids _ hm
    rw [next_toHost_list] at this
    omega

end Below

/-! ### What is seen of the result -/

mutual

theorem viewIn_toHost {h' : Heap} {path : List Nat} (h : Heap) : (x : Value) →
    (toHost h x).2.Extends h' → (∀ id ∈ path, (toHost h x).2.tables.next ≤ id) →
      h'.viewIn path (toHost h x).1 = x.shown
  | .list elements, hx, hp => by
    have ht := get?_toHost_list hx
    have hv : (toHost h (.list elements)).1 = .table (toHostEach h elements).2.tables.next := by
      rw [toHost_list]
      rfl
    rw [hv, Heap.viewIn_table ht (not_contains_of_next_le hp), Value.shown,
      viewEachIn_toHostEach h elements (extends_of_list hx) (next_le_of_cons hp), Heap.viewPairsIn]
  | .int _, _, _ | .double _, _, _ | .boolean _, _, _ | .bytes _, _, _ => by
    rw [toHost, Heap.viewIn, Value.shown]
  | .text _, _, _ | .foreign _ _, _, _ => by
    rw [toHost, HostValue.ofText, Heap.viewIn, Value.shown]
  | .empty, _, _ => by
    rw [toHost, HostValue.ofText, Heap.viewIn, Value.shown]
    rfl

theorem viewEachIn_toHostEach {h' : Heap} {path : List Nat} (h : Heap) : (xs : List Value) →
    (toHostEach h xs).2.Extends h' → (∀ id ∈ path, (toHostEach h xs).2.tables.next ≤ id) →
      h'.viewEachIn path (toHostEach h xs).1 = Value.shownEach xs
  | [], _, _ => by
    rw [toHostEach, Value.shownEach, Heap.viewEachIn]
  | x :: r, hx, hp => by
    rw [toHostEach_cons] at hx hp ⊢
    have hr := extends_toHostEach (toHost h x).2 r
    rw [Heap.viewEachIn, Value.shownEach,
      viewIn_toHost h x (hr.trans hx) fun id hm => Nat.le_trans hr.next_le (hp id hm),
      viewEachIn_toHostEach _ r hx hp]

end

/-! ### New tables -/

mutual

/-- The tables of the result are new, at every depth. -/
theorem toHost_fresh {h' : Heap} {id : Nat} (h : Heap) : (x : Value) →
    (toHost h x).2.Extends h' → h'.Reaches (toHost h x).1 (.table id) → h.tables.next ≤ id
  | .list elements, hx, hr => by
    have ht := get?_toHost_list hx
    have hv : (toHost h (.list elements)).1 = .table (toHostEach h elements).2.tables.next := by
      rw [toHost_list]
      rfl
    rw [hv] at hr
    rcases Relation.ReflTransGen.cases_head hr with he | ⟨w, ⟨k, hk, hw⟩, hr⟩
    · cases he
      exact (extends_toHostEach h elements).next_le
    · cases hk
      rw [Heap.table_eq ht] at hw
      exact toHostEach_fresh h elements (extends_of_list hx) w hw hr
  | .int _, _, hr | .double _, _, hr | .boolean _, _, hr | .bytes _, _, hr | .text _, _, hr
  | .foreign _ _, _, hr | .empty, _, hr => by
    obtain ⟨k, hk⟩ := Heap.table_of_reaches hr
    rw [toHost] at hk
    cases hk

theorem toHostEach_fresh {h' : Heap} {id : Nat} (h : Heap) : (xs : List Value) →
    (toHostEach h xs).2.Extends h' → ∀ v ∈ (toHostEach h xs).1, h'.Reaches v (.table id) →
      h.tables.next ≤ id
  | [], _, v, hv, _ => by
    rw [toHostEach] at hv
    cases hv
  | x :: r, hx, v, hv, hr => by
    rw [toHostEach_cons] at hx hv
    have hext := extends_toHostEach (toHost h x).2 r
    rcases List.mem_cons.1 hv with rfl | hv
    · exact toHost_fresh h x (hext.trans hx) hr
    · exact Nat.le_trans (extends_toHost h x).next_le (toHostEach_fresh _ r hx v hv hr)

end

/-! ### The second conversion -/

mutual

/-- Whoever converts the result gets what the value comes back as. -/
theorem convert_toHost_eq {h' : Heap} (seen : Visited) (h : Heap) : (x : Value) →
    (toHost h x).2.Extends h' → (∀ id ∈ seen.ids, (toHost h x).2.tables.next ≤ id) →
      (convert h' seen (toHost h x).1).1 = .ok x.returned
  | .list elements, hx, hp => by
    have ht := get?_toHost_list hx
    have hv : (toHost h (.list elements)).1 = .table (toHostEach h elements).2.tables.next := by
      rw [toHost_list]
      rfl
    rw [hv, convert_table_enter ht (not_contains_of_next_le hp), convertEach_toHostEach _ h elements
      (extends_of_list hx) (next_le_of_cons hp), Value.returned]
    rfl
  | .int _, _, _ | .boolean _, _, _ | .double _, _, _ => by
    rw [toHost, convert, Value.returned]
  | .bytes bs, _, _ => by
    rw [toHost, convert, ofBytes_eq]
  | .text s, _, _ => by
    rw [toHost, HostValue.ofText, convert, ofBytes_encode]
  | .foreign _ s, _, _ | .empty, _, _ => by
    rw [toHost, HostValue.ofText, convert, ofBytes_encode]
    rfl

theorem convertEach_toHostEach {h' : Heap} (seen : Visited) (h : Heap) : (xs : List Value) →
    (toHostEach h xs).2.Extends h' → (∀ id ∈ seen.ids, (toHostEach h xs).2.tables.next ≤ id) →
      (convertEach h' seen (toHostEach h xs).1).1 = .ok (Value.returnedEach xs)
  | [], _, _ => by
    rw [toHostEach, convertEach_nil, Value.returnedEach]
  | x :: r, hx, hp => by
    rw [toHostEach_cons] at hx hp ⊢
    have hr := extends_toHostEach (toHost h x).2 r
    rw [convertEach_cons, convert_toHost_eq seen h x (hr.trans hx) fun id hm =>
      Nat.le_trans hr.next_le (hp id hm), convertEach_toHostEach seen _ r hx hp,
      Value.returnedEach]
    rfl

end

/-- Whoever converts the result gets a value that shows the same. -/
theorem convert_toHost {h' : Heap} (seen : Visited) (h : Heap) (x : Value) (hs : x.Settled)
    (hx : (toHost h x).2.Extends h') (hp : ∀ id ∈ seen.ids, (toHost h x).2.tables.next ≤ id) :
    ∃ y, (convert h' seen (toHost h x).1).1 = .ok y ∧ y.shown = x.shown :=
  ⟨x.returned, convert_toHost_eq seen h x hx hp, shown_returned x hs⟩

/-! ### There and back -/

theorem view_toHost (h : Heap) (x : Value) : (toHost h x).2.view (toHost h x).1 = x.shown :=
  viewIn_toHost h x (.refl _) nofun

/-- **A value that went to the interpreter comes back in its normal form.**  Every
convertible value is converted, and what the host gets for the result, in
whatever heap, shows the normal form.  All its tables are new, and those from
before are as they were.  The second time nothing changes. -/
theorem roundTrip {h : Heap} {v : HostValue} (hv : h.Convertible v) :
    ∃ x view, toTarget h v = .ok x ∧ Normal h v view ∧ ∀ h₀ : Heap,
      (toHost h₀ x).2.view (toHost h₀ x).1 = view ∧
      (∀ id, (toHost h₀ x).2.Reaches (toHost h₀ x).1 (.table id) → h₀.tables.get? id = none) ∧
      h₀.Extends (toHost h₀ x).2 ∧
      ∃ y, toTarget (toHost h₀ x).2 (toHost h₀ x).1 = .ok y ∧
        ∀ h₁ : Heap, (toHost h₁ y).2.view (toHost h₁ y).1 = view := by
  obtain ⟨x, hx, hn, hs⟩ := convert_of_convertible {} hv nofun
  refine ⟨x, x.shown, hx, hn, fun h₀ => ⟨view_toHost h₀ x, fun id hr => ?_, ?_, ?_⟩⟩
  · exact Pool.get?_of_next_le (toHost_fresh h₀ x (.refl _) hr)
  · exact extends_toHost h₀ x
  · obtain ⟨y, hy, hshown⟩ := convert_toHost {} h₀ x hs (.refl _) nofun
    exact ⟨y, hy, fun h₁ => (view_toHost h₁ y).trans hshown⟩

/-- A heap with a table of a truth value and the number 1, and a table around it. -/
def nestedHeap : Heap :=
  let inner : Table := ⟨[.bool true, .number ⟨0x3FF0000000000000⟩], []⟩
  let outer : Table := ⟨[.table 0, .string [0, 0xFF]], []⟩
  ((({} : Heap).addTable inner).2.addTable outer).2

theorem holds_nestedHeap {v w : HostValue} (h : nestedHeap.Holds v w) :
    (v = .table 0 ∧ w ∈ [.bool true, .number ⟨0x3FF0000000000000⟩]) ∨
      (v = .table 1 ∧ w ∈ [.table 0, .string [0, 0xFF]]) := by
  obtain ⟨id, rfl, hw⟩ := h
  match id, hw with
  | 0, hw => exact .inl ⟨rfl, hw⟩
  | 1, hw => exact .inr ⟨rfl, hw⟩
  | n + 2, hw =>
    have hnext : nestedHeap.tables.next ≤ n + 2 := Nat.le_add_left 2 n
    rw [Heap.table, Pool.get, Pool.get?_of_next_le hnext] at hw
    cases hw

theorem convertible_nestedHeap : nestedHeap.Convertible (.table 1) := by
  refine Heap.convertible_of_lt (fun v w h id hid => ?_) (fun v w h id => ?_) 1
  · subst hid
    rcases holds_nestedHeap h with ⟨rfl, hw⟩ | ⟨rfl, hw⟩
    · simp at hw
    · obtain rfl : id = 0 := by simpa using hw
      exact ⟨1, rfl, Nat.zero_lt_one⟩
  · rcases holds_nestedHeap h with ⟨rfl, hw⟩ | ⟨rfl, hw⟩
    all_goals
      constructor
      all_goals
        rintro rfl
        simp at hw

theorem normal_nestedHeap : Normal nestedHeap (.table 1)
    (.table [.table [.int 1, .int 1] [], .string [0, 0xFF]] []) := by
  have hone : Normal nestedHeap (.number ⟨0x3FF0000000000000⟩) (.int 1) :=
    .integral (by decide +kernel) (by decide +kernel)
  have hinner : Normal nestedHeap (.table 0) (.table [.int 1, .int 1] []) := by
    refine .table rfl fun n v item hv hi => ?_
    match n, hv, hi with
    | 0, hv, hi =>
      cases hv
      cases hi
      exact .bool true
    | 1, hv, hi =>
      cases hv
      cases hi
      exact hone
  refine .table rfl fun n v item hv hi => ?_
  match n, hv, hi with
  | 0, hv, hi =>
    cases hv
    cases hi
    exact hinner
  | 1, hv, hi =>
    cases hv
    cases hi
    exact .string _

/-- Truth values and integral numbers come back as integers, in new tables. -/
theorem roundTrip_nested : nestedHeap.Convertible (.table 1) ∧
    ∃ x, toTarget nestedHeap (.table 1) = .ok x ∧ ∀ h₀ : Heap,
      (toHost h₀ x).2.view (toHost h₀ x).1 =
        .table [.table [.int 1, .int 1] [], .string [0, 0xFF]] [] := by
  obtain ⟨x, view, hx, hn, hback⟩ := roundTrip convertible_nestedHeap
  obtain rfl := hn.unique normal_nestedHeap
  exact ⟨convertible_nestedHeap, x, hx, fun h₀ => (hback h₀).1⟩

/-- The greatest integer converts to `2 ^ 63`, and yet that number stays a number. -/
theorem beyond_stays_number :
    Binary64.ofInt Int64.maxValue.toInt = Binary64.beyond ∧
      ∃ x, toTarget {} (.number Binary64.beyond) = .ok x ∧
        (toHost {} x).1 = .number Binary64.beyond := by
  refine ⟨by decide +kernel, .double Binary64.beyond, ?_, by rw [toHost]⟩
  rw [toTarget, convert]
  rfl

end Marshal
end CommandBridge
