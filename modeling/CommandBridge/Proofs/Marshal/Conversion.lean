/-
# Converting host values

What `convert` does with a table is said by one equation (`convert_table`), and so
is what `convertEach` does with a list (`convertEach_cons`).  From these it follows
that a convertible value is converted (`convert_of_convertible`): the tables on the
way enclose the value, so none of them is met again below it.

The view of the result (`Value.shown`) is the normal form of the host value
(`Normal`): nil is the empty string, truth values are the integers 0 and 1, a
number is the integer that it equals if that converts back to it, and a table is
a table of the normal forms of its array region, with an empty map region.
-/

import CommandBridge.Marshal.Convert
import CommandBridge.Host.Show
import CommandBridge.Proofs.Bytes.Decoding
import CommandBridge.Proofs.Host.Graph
import CommandBridge.Proofs.Number.Integral
import CommandBridge.Proofs.Number.Literal
import Mathlib.Data.List.Forall2

namespace CommandBridge

namespace Value

mutual

/-- The view of a value as the host gets it. -/
def shown : Value → View
  | .empty => .string []
  | .int i => .int i
  | .double x => .number x
  | .boolean b => .int (if b then 1 else 0)
  | .bytes bs => .string bs
  | .text s => .string (Utf8.encode s)
  | .foreign _ s => .string (Utf8.encode s)
  | .list elements => .table (shownEach elements) []

/-- The views of values. -/
def shownEach : List Value → List View
  | [] => []
  | v :: r => v.shown :: shownEach r

end

mutual

/-- Every double in the value stays a double when it is converted. -/
def Settled : Value → Prop
  | .double x => Marshal.ofNumber x = .double x
  | .list elements => SettledEach elements
  | _ => True

/-- Every double in the values stays a double when it is converted. -/
def SettledEach : List Value → Prop
  | [] => True
  | v :: r => v.Settled ∧ SettledEach r

end

theorem shownEach_eq_map (vs : List Value) : shownEach vs = vs.map shown := by
  induction vs with
  | nil => rw [shownEach, List.map_nil]
  | cons v r ih => rw [shownEach, ih, List.map_cons]

theorem settledEach_iff {vs : List Value} : SettledEach vs ↔ ∀ v ∈ vs, v.Settled := by
  induction vs with
  | nil => simp [SettledEach]
  | cons v r ih => simp [SettledEach, ih]

end Value

namespace Marshal

/-! ### Numbers and strings -/

/-- A number becomes the integer that it equals and that converts back to it.
Apart from `2 ^ 63` no other number is one that an integer converts to. -/
theorem ofNumber_cases (x : Binary64) :
    (∃ i : Int64, ofNumber x = .int i ∧ x.toInt? = some i.toInt ∧ Binary64.ofInt i.toInt = x) ∨
      (ofNumber x = .double x ∧
        ∀ i : Int64, Binary64.ofInt i.toInt = x → x = Binary64.beyond) := by
  cases hw : x.toInt?.bind Integer.word? with
  | none =>
    refine .inr ⟨by rw [ofNumber, hw], fun i hi => ?_⟩
    refine (Binary64.ofInt_eq_cases hi).resolve_right ?_
    rintro ⟨j, hj, -⟩
    rw [hj, Option.bind_some, Integer.word?_eq_some_iff.2 rfl] at hw
    cases hw
  | some i =>
    obtain ⟨a, ha, hai⟩ := Option.bind_eq_some_iff.1 hw
    obtain rfl := Integer.word?_eq_some_iff.1 hai
    by_cases hx : Binary64.ofInt i.toInt = x
    · exact .inl ⟨i, by rw [ofNumber, hw]; exact if_pos hx, ha, hx⟩
    · refine .inr ⟨by rw [ofNumber, hw]; exact if_neg hx, fun j hj => ?_⟩
      refine (Binary64.ofInt_eq_cases hj).resolve_right ?_
      rintro ⟨k, hk, hkx⟩
      rw [ha, Option.some.injEq] at hk
      exact hx (hk ▸ hkx)

/-- A string keeps its bytes, as a text or as bytes. -/
theorem shown_ofBytes (bs : Bytes) : (ofBytes bs).shown = .string bs := by
  rw [ofBytes]
  split
  · split
    · rename_i s hs
      rw [Value.shown, Utf8.encode_of_text? hs]
    · rw [Value.shown]
  · rw [Value.shown]

theorem settled_ofBytes (bs : Bytes) : (ofBytes bs).Settled := by
  rw [ofBytes]
  split
  · split <;> trivial
  · trivial

/-! ### Tables -/

section Tables

variable {h : Heap} {seen : Visited} {id : Nat}

/-- What happens to a table: one that is on the way already is refused. -/
theorem convert_table (h : Heap) (seen : Visited) (id : Nat) :
    (convert h seen (.table id)).1 =
      match h.tables.get? id with
      | none => .ok (.list [])
      | some t =>
        if seen.contains id then .error .recursiveTable
        else (convertEach h ⟨id :: seen.ids⟩ t.array).1.map .list := by
  rw [convert]
  split
  · rename_i ht
    rw [ht]
  · rename_i t ht hs
    rw [ht]
    exact (if_pos (Visited.enter?_eq_none_iff.1 hs)).symm
  · rename_i t inner ht hs
    obtain ⟨hc, hi⟩ := Visited.contains_of_enter? hs
    rw [ht]
    dsimp only
    rw [hc, if_neg Bool.false_ne_true, ← hi]

theorem convert_table_enter {t : Table} (ht : h.tables.get? id = some t)
    (hs : seen.contains id = false) :
    (convert h seen (.table id)).1 = (convertEach h ⟨id :: seen.ids⟩ t.array).1.map .list := by
  rw [convert_table, ht]
  dsimp only
  rw [hs, if_neg Bool.false_ne_true]

theorem convertEach_nil : (convertEach h seen []).1 = .ok [] := by
  rw [convertEach]

/-- The first failure ends the conversion of values. -/
theorem convertEach_cons (h : Heap) (seen : Visited) (v : HostValue) (r : List HostValue) :
    (convertEach h seen (v :: r)).1 =
      (convert h seen v).1.bind fun x => (convertEach h seen r).1.map (x :: ·) := by
  rw [convertEach]
  split
  · rename_i hv
    rw [hv]
    rfl
  · rename_i x s hs hv
    subst hs
    rw [hv]
    rfl

mutual

/-- Tables that are added make no difference to values that lead to none that is missing. -/
theorem convert_of_extends {h h' : Heap} (hx : h.Extends h') (hc : h.Closed) (seen : Visited)
    (v : HostValue) (hv : h.Has v) : (convert h' seen v).1 = (convert h seen v).1 := by
  cases v with
  | table id =>
    obtain ⟨t, ht⟩ := hv id rfl
    rw [convert_table, convert_table, ht, hx.get?_eq id t ht]
    by_cases hs : seen.contains id = true
    · simp only [hs, if_true]
    · have hin := convertEach_of_extends hx hc ⟨id :: seen.ids⟩ t.array (hc id t ht).1
      simp only [hs, hin]
  | nil | bool _ | int _ | number _ | string _ => rw [convert, convert]
  | function _ | object _ => simp only [convert]
termination_by ((h.unvisited seen.ids).length, 0)
decreasing_by exact Prod.Lex.left _ _ (Heap.length_unvisited_lt ht (Bool.eq_false_iff.2 hs))

theorem convertEach_of_extends {h h' : Heap} (hx : h.Extends h') (hc : h.Closed) (seen : Visited)
    (vs : List HostValue) (hvs : ∀ v ∈ vs, h.Has v) :
    (convertEach h' seen vs).1 = (convertEach h seen vs).1 := by
  match vs with
  | [] => rw [convertEach_nil, convertEach_nil]
  | v :: r =>
    rw [convertEach_cons, convertEach_cons,
      convert_of_extends hx hc seen v (hvs v List.mem_cons_self),
      convertEach_of_extends hx hc seen r fun u hu => hvs u (List.mem_cons_of_mem v hu)]
termination_by ((h.unvisited seen.ids).length, vs.length + 1)
decreasing_by all_goals exact Prod.Lex.right _ (by simp)

end

/-- Values that can be converted one by one can be converted in order. -/
theorem convertEach_ok {P : HostValue → Value → Prop} {vs : List HostValue}
    (hvs : ∀ v ∈ vs, ∃ x, (convert h seen v).1 = .ok x ∧ P v x) :
    ∃ xs, (convertEach h seen vs).1 = .ok xs ∧ List.Forall₂ P vs xs := by
  induction vs with
  | nil => exact ⟨[], convertEach_nil, .nil⟩
  | cons v r ih =>
    obtain ⟨x, hx, hp⟩ := hvs v List.mem_cons_self
    obtain ⟨xs, hxs, hps⟩ := ih fun w hw => hvs w (List.mem_cons_of_mem v hw)
    exact ⟨x :: xs, by rw [convertEach_cons, hx, hxs]; rfl, .cons hp hps⟩

end Tables

/-! ### Normal forms -/

/-- The view of what a host value is after it has been to the interpreter and
back. -/
inductive Normal (h : Heap) : HostValue → View → Prop
  | nil : Normal h .nil (.string [])
  | bool (b : Bool) : Normal h (.bool b) (.int (if b then 1 else 0))
  | int (i : Int64) : Normal h (.int i) (.int i)
  | integral {x : Binary64} {i : Int64} (hx : x.toInt? = some i.toInt)
      (hi : Binary64.ofInt i.toInt = x) : Normal h (.number x) (.int i)
  | number {x : Binary64}
      (hx : ∀ i : Int64, Binary64.ofInt i.toInt = x → x = Binary64.beyond) :
      Normal h (.number x) (.number x)
  | string (bs : Bytes) : Normal h (.string bs) (.string bs)
  | table {id : Nat} {items : List View} (hl : items.length = (h.table id).array.length)
      (hi : ∀ (n : Nat) (v : HostValue) (item : View), (h.table id).array[n]? = some v →
        items[n]? = some item → Normal h v item) :
      Normal h (.table id) (.table items [])

/-- A value has one normal form. -/
theorem Normal.unique {h : Heap} {v : HostValue} {a b : View} (ha : Normal h v a)
    (hb : Normal h v b) : a = b := by
  have hapart : ∀ {x : Binary64} {i : Int64}, x.toInt? = some i.toInt →
      Binary64.ofInt i.toInt = x →
        ¬ ∀ i : Int64, Binary64.ofInt i.toInt = x → x = Binary64.beyond := by
    intro x i hx hi hall
    rw [hall i hi, Binary64.toInt?_beyond, Option.some.injEq] at hx
    have := i.toInt_lt
    omega
  induction ha generalizing b with
  | nil | bool | int | string => cases hb; rfl
  | integral hx hi =>
    cases hb with
    | integral hy hj =>
      rw [hx, Option.some.injEq, Int64.toInt_inj] at hy
      rw [hy]
    | number hy => exact absurd hy (hapart hx hi)
  | number hx =>
    cases hb with
    | integral hy hj => exact absurd hx (hapart hy hj)
    | number => rfl
  | table hl hi ih =>
    cases hb with
    | table hl' hi' =>
      congr 1
      refine List.ext_getElem (hl.trans hl'.symm) fun n hn hn' => ?_
      have hv := List.getElem?_eq_getElem (hl ▸ hn)
      exact ih n _ _ hv (List.getElem?_eq_getElem hn) (hi' n _ _ hv (List.getElem?_eq_getElem hn'))

theorem normal_ofNumber (h : Heap) (x : Binary64) :
    Normal h (.number x) (ofNumber x).shown ∧ (ofNumber x).Settled := by
  rcases ofNumber_cases x with ⟨i, hx, hi, hback⟩ | ⟨hx, hout⟩
  · rw [hx, Value.shown]
    exact ⟨.integral hi hback, trivial⟩
  · rw [hx, Value.shown, Value.Settled]
    exact ⟨.number hout, hx⟩

theorem normal_list {h : Heap} {id : Nat} {xs : List Value}
    (hxs : List.Forall₂ (fun v x => Normal h v x.shown ∧ x.Settled) (h.table id).array xs) :
    Normal h (.table id) (Value.list xs).shown ∧ (Value.list xs).Settled := by
  obtain ⟨hlen, hget⟩ := List.forall₂_iff_get.1 hxs
  rw [Value.shown, Value.shownEach_eq_map, Value.Settled, Value.settledEach_iff]
  constructor
  · refine .table (by rw [List.length_map, hlen]) fun n v item hv hi => ?_
    obtain ⟨hn, rfl⟩ := List.getElem?_eq_some_iff.1 hv
    rw [List.getElem?_map, List.getElem?_eq_getElem (hlen ▸ hn)] at hi
    obtain rfl := Option.some.inj hi
    exact (hget n hn (hlen ▸ hn)).1
  · intro x hx
    obtain ⟨n, hn, rfl⟩ := List.getElem_of_mem hx
    exact (hget n (hlen ▸ hn) hn).2

/-- **A convertible value is converted, and the result shows its normal form.** -/
theorem convert_of_convertible {h : Heap} (seen : Visited) {v : HostValue} (hv : h.Convertible v)
    (hseen : ∀ id ∈ seen.ids, ¬ h.Reaches v (.table id)) :
    ∃ x, (convert h seen v).1 = .ok x ∧ Normal h v x.shown ∧ x.Settled := by
  obtain ⟨n, hn⟩ : ∃ n, (h.unvisited seen.ids).length = n := ⟨_, rfl⟩
  induction n using Nat.strongRecOn generalizing seen v with
  | ind n ih =>
    cases v with
    | nil => exact ⟨.empty, by rw [convert], .nil, trivial⟩
    | bool b => exact ⟨.boolean b, by rw [convert], .bool b, trivial⟩
    | int i => exact ⟨.int i, by rw [convert], .int i, trivial⟩
    | number x => exact ⟨ofNumber x, by rw [convert], normal_ofNumber h x⟩
    | string bs =>
      refine ⟨ofBytes bs, by rw [convert], ?_, settled_ofBytes bs⟩
      rw [shown_ofBytes]
      exact .string bs
    | function id => exact absurd .refl (hv.no_function id)
    | object id => exact absurd .refl (hv.no_object id)
    | table id =>
      cases ht : h.tables.get? id with
      | none =>
        have hnil : (h.table id).array = [] := by
          rw [Heap.table, Pool.get, ht]
          rfl
        exact ⟨.list [], by rw [convert_table, ht], normal_list (hnil ▸ .nil)⟩
      | some t =>
        have hc : seen.contains id = false := by
          rw [Visited.contains, List.contains_eq_mem, decide_eq_false_iff_not]
          exact fun hm => hseen id hm .refl
        -- below the table neither it nor what encloses it is met again
        have hbelow : ∀ w ∈ t.array, ∃ x,
            (convert h ⟨id :: seen.ids⟩ w).1 = .ok x ∧ Normal h w x.shown ∧ x.Settled := by
          intro w hw
          have hholds : h.Holds (.table id) w := ⟨id, rfl, by rwa [Heap.table_eq ht]⟩
          refine ih _ (hn ▸ Heap.length_unvisited_lt ht hc) _ (hv.of_holds hholds) ?_ rfl
          intro k hk
          rcases List.mem_cons.1 hk with rfl | hk
          · exact hv.not_reaches hholds
          · exact fun hr => hseen k hk (.head hholds hr)
        obtain ⟨xs, hxs, hall⟩ := convertEach_ok hbelow
        refine ⟨.list xs, by rw [convert_table_enter ht hc, hxs]; rfl, normal_list ?_⟩
        rwa [Heap.table_eq ht]

end Marshal
end CommandBridge
