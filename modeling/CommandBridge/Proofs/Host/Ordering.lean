/-
# The order of a table

A write leaves the keys that stay in the map region in their order and puts those behind
them that come in (`keys_set`): a new key, or the positions behind a value that was taken
out of the array region (`entering`).  So the map region has its keys in the order in which
each of them came in last (`keys_eq_dedup`).

With what a write does to the values this describes a table completely
(`finite_map_with_order`).
-/

import CommandBridge.Proofs.Host.Indexing
import CommandBridge.Proofs.Host.Mapping
import Mathlib.Data.List.Dedup

namespace CommandBridge
namespace Table

variable {array : List HostValue} {map : List (Key × HostValue)} {k k' : Key} {v : HostValue}
  {t : Table} {n : Nat}

/-- The keys that come into the map region when a value is written at a key, in order. -/
def entering (t : Table) (k : Key) (v : HostValue) : List Key :=
  match t.slot? k with
  | some n => if v.isNil then (List.range' (n + 2) (t.border - (n + 1))).map position else []
  | none => if v.isNil || t.isNext k || (keys t.map).contains k then [] else [k]

/-- Spilled positions come behind all keys. -/
theorem keys_spill {values : List HostValue} (hn : n + values.length ≤ 0x8000000000000000)
    (hnew : ∀ m < values.length, position (n + m) ∉ keys map) :
    keys (spill map n values) = keys map ++ (List.range' n values.length).map position := by
  induction values generalizing map n with
  | nil => simp [spill]
  | cons v rest ih =>
    rw [List.length_cons] at hn
    have hfirst : position n ∉ keys map := hnew 0 (Nat.succ_pos _)
    have hhere : keys (mapInsert map (position n) v) = keys map ++ [position n] := by
      rw [keys_mapInsert, if_neg hfirst]
    rw [spill, ih (by omega) fun m hm hmem => ?_, hhere, List.length_cons, List.range'_succ,
      List.map_cons, List.append_assoc, List.singleton_append]
    rw [hhere, List.mem_append, List.mem_singleton] at hmem
    rcases hmem with hmem | he
    · refine hnew (m + 1) (Nat.succ_lt_succ hm) ?_
      rwa [Nat.add_assoc, Nat.add_comm 1 m] at hmem
    · exact position_ne (by omega) (by omega) (by omega) he

/-- Pulling keys into the array region leaves the others in their order. -/
theorem exists_filter_absorb (array : List HostValue) (map : List (Key × HostValue)) :
    ∃ p : Key → Bool, keys (absorb array map).map = (keys map).filter p := by
  induction array, map using absorb.induct with
  | case1 array map v h ih =>
    obtain ⟨p, hp⟩ := ih
    rw [absorb, h]
    refine ⟨fun k => k != position (array.length + 1) && p k, hp.trans ?_⟩
    rw [keys_mapErase, List.filter_filter]
    exact List.filter_congr fun k _ => Bool.and_comm _ _
  | case2 array map h =>
    rw [absorb, h]
    exact ⟨fun _ => true, (List.filter_true _).symm⟩

/-- What comes in was not there before. -/
theorem not_mem_of_entering (h : t.Proper) (hb : t.border < 0x8000000000000000)
    (hk' : k' ∈ t.entering k v) : k' ∉ keys t.map := by
  unfold entering at hk'
  split at hk'
  · split at hk'
    · obtain ⟨m, hm, rfl⟩ := List.mem_map.1 hk'
      rw [List.mem_range'_1] at hm
      obtain ⟨j, rfl⟩ := Nat.exists_eq_add_of_le' (Nat.le_trans (Nat.le_add_left 1 _) hm.1)
      exact h.position_not_mem hb (by omega)
    · cases hk'
  · split at hk'
    · cases hk'
    · rename_i hnew
      obtain rfl := List.mem_singleton.1 hk'
      intro hmem
      exact hnew (Bool.or_eq_true_iff.2 (.inr (List.contains_iff_mem.2 hmem)))

/-- After a write there are some of the keys from before, and those that came in. -/
theorem exists_filter_set (h : t.Proper) (hb : t.border < 0x8000000000000000) (k : Key)
    (v : HostValue) :
    ∃ p : Key → Bool, keys (t.set k v).map = (keys t.map).filter p ++ t.entering k v := by
  unfold set entering
  cases hk : t.slot? k with
  | some n =>
    obtain ⟨hn, rfl⟩ := (slot?_eq_some_iff hb).1 hk
    dsimp only
    split
    · refine ⟨fun _ => true, ?_⟩
      have hlen : (t.array.drop (n + 1)).length = t.border - (n + 1) := List.length_drop
      rw [truncate, List.filter_true, keys_spill (by omega) fun m hm => ?_, hlen]
      have hposition : n + 2 + m = (n + 1 + m) + 1 := by omega
      rw [hposition]
      exact h.position_not_mem hb (by omega)
    · exact ⟨fun _ => true, by rw [List.filter_true, List.append_nil]⟩
  | none =>
    dsimp only
    split
    · rename_i hnil
      exact ⟨(· != k), by rw [keys_mapErase, hnil, Bool.true_or, Bool.true_or, if_pos rfl,
        List.append_nil]⟩
    · rename_i hnil
      split
      · rename_i hnext
        obtain ⟨p, hp⟩ := exists_filter_absorb (t.array ++ [v]) (mapErase t.map k)
        refine ⟨fun k' => p k' && k' != k, ?_⟩
        rw [hp, keys_mapErase, List.filter_filter, hnext, Bool.or_true, Bool.true_or, if_pos rfl,
          List.append_nil]
      · rename_i hnext
        refine ⟨fun _ => true, ?_⟩
        rw [List.filter_true, keys_mapInsert, Bool.eq_false_iff.2 hnil, Bool.eq_false_iff.2 hnext,
          Bool.false_or, Bool.false_or]
        by_cases hmem : k ∈ keys t.map
        · rw [if_pos hmem, if_pos (List.contains_iff_mem.2 hmem), List.append_nil]
        · rw [if_neg hmem, if_neg (mt List.contains_iff_mem.1 hmem)]

/-- **A write leaves the keys that stay in their order and puts those behind them that come
in.** -/
theorem keys_set (h : t.Proper) (hb : t.border < 0x8000000000000000) (k : Key) (v : HostValue) :
    keys (t.set k v).map =
      (keys t.map).filter (· ∈ keys (t.set k v).map) ++ t.entering k v := by
  obtain ⟨p, hp⟩ := exists_filter_set h hb k v
  conv_lhs => rw [hp]
  congr 1
  refine List.filter_congr fun k' hk' => ?_
  rw [hp, Bool.eq_iff_iff, decide_eq_true_iff, List.mem_append, List.mem_filter]
  exact ⟨fun hpk => .inl ⟨hk', hpk⟩, fun hmem =>
    (hmem.resolve_right fun he => not_mem_of_entering h hb he hk').2⟩

theorem mem_entering_iff (h : t.Proper) (hb : t.border < 0x8000000000000000) :
    k' ∈ t.entering k v ↔ k' ∈ keys (t.set k v).map ∧ k' ∉ keys t.map := by
  have hset := keys_set h hb k v
  constructor
  · exact fun hk' => ⟨by rw [hset]; exact List.mem_append_right _ hk', not_mem_of_entering h hb hk'⟩
  · rintro ⟨hk', hnew⟩
    rw [hset] at hk'
    exact (List.mem_append.1 hk').resolve_left fun hold => hnew (List.mem_of_mem_filter hold)

end Table

/-! ### The last of several occurrences -/

section Dedup

variable {α : Type} [DecidableEq α]

theorem dedup_filter (p : α → Bool) (l : List α) : (l.filter p).dedup = l.dedup.filter p := by
  induction l with
  | nil => rfl
  | cons a l ih =>
    by_cases ha : a ∈ l
    · rw [List.dedup_cons_of_mem ha, ← ih, List.filter_cons]
      split
      · rename_i hp
        exact List.dedup_cons_of_mem (List.mem_filter.2 ⟨ha, hp⟩)
      · rfl
    · rw [List.dedup_cons_of_notMem ha, List.filter_cons, List.filter_cons, ← ih]
      split
      · exact List.dedup_cons_of_notMem fun hmem => ha (List.mem_of_mem_filter hmem)
      · rfl

/-- What occurs behind does not count in front. -/
theorem dedup_append_eq_filter (l l' : List α) :
    (l ++ l').dedup = (l.filter (· ∉ l')).dedup ++ l'.dedup := by
  induction l with
  | nil => rfl
  | cons a l ih =>
    rw [List.cons_append, List.filter_cons]
    by_cases ha' : a ∈ l'
    · rw [List.dedup_cons_of_mem (List.mem_append_right l ha'), ih, if_neg (by simpa using ha')]
    · rw [if_pos (by simpa using ha')]
      by_cases ha : a ∈ l
      · rw [List.dedup_cons_of_mem (List.mem_append_left l' ha), ih,
          List.dedup_cons_of_mem (List.mem_filter.2 ⟨ha, by simpa using ha'⟩)]
      · rw [List.dedup_cons_of_notMem fun h => (List.mem_append.1 h).elim ha ha', ih,
          List.dedup_cons_of_notMem fun h => ha (List.mem_of_mem_filter h), List.cons_append]

end Dedup

/-- The key and the value of a write to a table with a border; what is no key is not
written. -/
def TableWrite.target? (border : Nat) : TableWrite → Option (Key × HostValue)
  | .set k v => (Key.ofValue k).toOption.map (·, v)
  | .setField name v => some (Key.ofText name, v)
  | .push v => some (Table.position (border + 1), v)
  | .setKey k v => some (k, v)

namespace IndexedTable

open Table (keys)

variable {t : IndexedTable} {u : Table}

theorem write_eq (t : IndexedTable) (w : TableWrite) :
    t.write w = ((w.target? t.len).map fun p => t.setKey p.1 p.2).getD t := by
  cases w with
  | set k v =>
    rw [write, set, TableWrite.target?]
    cases Key.ofValue k <;> rfl
  | _ => rfl

/-- The keys that a write makes come into the map region, in order. -/
def entering (t : IndexedTable) (w : TableWrite) : List Key :=
  ((w.target? t.len).map fun p => t.toTable.entering p.1 p.2).getD []

/-- The keys that came into the map region while writes were made, in order and as often as
they came in. -/
def entered (t : IndexedTable) : List TableWrite → List Key
  | [] => []
  | w :: writes => t.entering w ++ entered (t.write w) writes

theorem entered_append (t : IndexedTable) (writes : List TableWrite) (w : TableWrite) :
    entered t (writes ++ [w]) = entered t writes ++ (writes.foldl write t).entering w := by
  induction writes generalizing t with
  | nil => exact List.append_nil _
  | cons w' writes ih =>
    rw [List.cons_append, entered, ih, entered, List.append_assoc, List.foldl_cons]

/-- One write: the keys that stay keep their order, and those that come in stand behind
them. -/
theorem keys_write (h : t.Represents u) (hu : u.Proper) (hb : u.border < 0x8000000000000000)
    (w : TableWrite) :
    keys (t.write w).map = (keys t.map).filter (· ∈ keys (t.write w).map) ++ t.entering w ∧
      ∀ k, k ∈ t.entering w ↔ k ∈ keys (t.write w).map ∧ k ∉ keys t.map := by
  obtain ⟨hi, rfl⟩ := h
  rw [write_eq, entering]
  cases w.target? t.len with
  | none =>
    refine ⟨?_, fun k => ⟨fun hk => (nomatch hk), fun hk => absurd hk.1 hk.2⟩⟩
    exact (List.filter_eq_self.2 fun k hk => decide_eq_true hk).symm.trans (List.append_nil _).symm
  | some p =>
    have hset : keys (t.setKey p.1 p.2).map = keys (t.toTable.set p.1 p.2).map :=
      congrArg (fun u => keys u.map) (Represents.setKey ⟨hi, rfl⟩ p.1 p.2).eq
    simp only [Option.map_some, Option.getD_some, hset]
    exact ⟨Table.keys_set hu hb p.1 p.2, fun k => Table.mem_entering_iff hu hb⟩

/-- **The map region has its keys in the order in which each of them came in last.** -/
theorem keys_eq_dedup {writes : List TableWrite} (h : Roomy writes) :
    keys (writes.foldl write empty).map =
      ((entered empty writes).filter (· ∈ keys (writes.foldl write empty).map)).dedup := by
  induction writes using List.reverseRecOn with
  | nil => rfl
  | append_singleton writes w ih =>
    have hbefore : Roomy writes := fun before hb => h before (hb.trans (List.prefix_append _ _))
    obtain ⟨hr, hp⟩ := represents_of_writes hbefore
    have hb := hbefore writes List.prefix_rfl
    rw [show (writes.foldl write empty).len = (writes.foldl Table.write .empty).border from
      congrArg Table.border hr.eq] at hb
    have ih := ih hbefore
    obtain ⟨hkeys, hentering⟩ := keys_write hr hp (by omega) w
    have hnodup := ((hr.write hb w).indexed).nodup
    rw [entered_append, List.foldl_append, List.foldl_cons, List.foldl_nil]
    generalize writes.foldl write empty = t at *
    have hnew : (t.entering w).filter (· ∈ keys (t.write w).map) = t.entering w :=
      List.filter_eq_self.2 fun k hk => decide_eq_true ((hentering k).1 hk).1
    have hunique : (t.entering w).Nodup := (hkeys ▸ hnodup).of_append_right
    -- an older entry counts if its key is still there and did not come in again
    have hold : (((entered empty writes).filter (· ∈ keys (t.write w).map)).filter
        (· ∉ t.entering w)).dedup = (keys t.map).filter (· ∈ keys (t.write w).map) := by
      conv_rhs => rw [ih]
      rw [← dedup_filter, List.filter_filter, List.filter_filter]
      congr 1
      refine List.filter_congr fun k _ => ?_
      rw [Bool.eq_iff_iff]
      simp only [Bool.and_eq_true, decide_eq_true_iff, hentering k]
      tauto
    rw [List.filter_append, hnew, dedup_append_eq_filter, hold, hunique.dedup]
    exact hkeys

/-! ### Keys as values -/

theorem ofValue_toValue {kv : HostValue} {k : Key} (h : Key.ofValue kv = .ok k) :
    Key.ofValue k.toValue = .ok k := by
  cases kv with
  | nil => cases h
  | number x =>
    unfold Key.ofValue at h
    dsimp only at h
    split at h
    · cases h
    · rename_i hnan
      split at h
      · obtain rfl := Except.ok.inj h
        rfl
      · rename_i hinteger
        obtain rfl := Except.ok.inj h
        rw [Key.toValue, Key.ofValue, if_neg hnan, hinteger]
  | _ =>
    obtain rfl := Except.ok.inj h
    rfl

/-- The values that are no keys. -/
theorem exists_ofValue_error_iff {kv : HostValue} : (∃ e, Key.ofValue kv = .error e) ↔
    kv = .nil ∨ ∃ x : Binary64, kv = .number x ∧ x.isNaN = true := by
  cases kv with
  | nil => exact ⟨fun _ => .inl rfl, fun _ => ⟨_, rfl⟩⟩
  | number x =>
    unfold Key.ofValue
    dsimp only
    split
    · rename_i hnan
      exact ⟨fun _ => .inr ⟨x, rfl, hnan⟩, fun _ => ⟨_, rfl⟩⟩
    · rename_i hnan
      constructor
      · rintro ⟨e, he⟩
        split at he <;> cases he
      · rintro (h | ⟨y, h, hy⟩)
        · cases h
        · cases h
          exact absurd hy hnan
  | _ =>
    refine ⟨fun ⟨_, h⟩ => (nomatch h), ?_⟩
    rintro (h | ⟨_, h, _⟩) <;> cases h

end IndexedTable

/-- A key that is written without a value is the key that its value stands for. -/
def TableWrite.Normal : TableWrite → Prop
  | .setKey k _ => Key.ofValue k.toValue = .ok k
  | _ => True

namespace IndexedTable

open Table (keys)

variable {t : IndexedTable} {u : Table} {k : Key} {v : HostValue}

theorem normal_of_target {w : TableWrite} (h : w.Normal) {n : Nat} {p : Key × HostValue}
    (hp : w.target? n = some p) : Key.ofValue p.1.toValue = .ok p.1 := by
  cases w with
  | set kv v =>
    rw [TableWrite.target?] at hp
    cases hk : Key.ofValue kv with
    | error e =>
      rw [hk] at hp
      cases hp
    | ok k =>
      rw [hk] at hp
      cases hp
      exact ofValue_toValue hk
  | setField name v =>
    cases hp
    rfl
  | push v =>
    cases hp
    rfl
  | setKey k v =>
    cases hp
    exact h

theorem normal_of_entering {w : TableWrite} (h : w.Normal) (hk : k ∈ t.entering w) :
    Key.ofValue k.toValue = .ok k := by
  unfold entering at hk
  cases hp : w.target? t.len with
  | none =>
    rw [hp] at hk
    cases hk
  | some p =>
    rw [hp, Option.map_some, Option.getD_some] at hk
    unfold Table.entering at hk
    split at hk
    · split at hk
      · obtain ⟨n, -, rfl⟩ := List.mem_map.1 hk
        rfl
      · cases hk
    · split at hk
      · cases hk
      · obtain rfl := List.mem_singleton.1 hk
        exact normal_of_target h hp

/-- The keys of the map region are what their values stand for. -/
theorem normal_of_mem_keys {writes : List TableWrite} (h : Roomy writes)
    (hnormal : ∀ w ∈ writes, w.Normal) (hk : k ∈ keys (writes.foldl write empty).map) :
    Key.ofValue k.toValue = .ok k := by
  have hentered : ∀ (t : IndexedTable) (ws : List TableWrite), (∀ w ∈ ws, w.Normal) →
      k ∈ entered t ws → Key.ofValue k.toValue = .ok k := by
    intro t ws
    induction ws generalizing t with
    | nil => exact fun _ hk => nomatch hk
    | cons w ws ih =>
      intro hws hk
      rcases List.mem_append.1 hk with hk | hk
      · exact normal_of_entering (hws w List.mem_cons_self) hk
      · exact ih _ (fun w hw => hws w (List.mem_cons_of_mem _ hw)) hk
  rw [keys_eq_dedup h, List.mem_dedup, List.mem_filter] at hk
  exact hentered _ _ hnormal hk.1

/-! ### Reading after a write -/

theorem get_setKey (h : t.Represents u) (hu : u.Proper) (hb : u.border < 0x8000000000000000)
    (hafter : (t.setKey k v).len < 0x8000000000000000) (k' : Key) :
    (t.setKey k v).get k' = if k' = k then v else t.get k' := by
  have hr := h.setKey k v
  have hlen : (t.setKey k v).len = (u.set k v).border := congrArg Table.border hr.eq
  rw [hr.get, Table.get_set hu hb (hlen ▸ hafter), h.get]

theorem lookup_setKey (h : t.Represents u) (hu : u.Proper) (hb : u.border < 0x8000000000000000)
    (hafter : (t.setKey k v).len < 0x8000000000000000) (kv : HostValue) :
    (t.setKey k v).lookup kv = if Key.ofValue kv = .ok k then v else t.lookup kv := by
  rw [lookup, lookup]
  cases Key.ofValue kv with
  | error e =>
    rw [if_neg]
    rintro ⟨⟩
  | ok k' =>
    dsimp only
    rw [get_setKey h hu hb hafter]
    simp only [Except.ok.injEq]

/-- A pushed value makes the array region longer. -/
theorem len_lt_push (h : t.Represents u) (hb : u.border + 1 < 0x8000000000000000)
    (hv : v ≠ .nil) : t.len < (t.push v).len := by
  have hr := h.push hb v
  have hlen : t.len = u.array.length := congrArg Table.border h.eq
  have hlen' : (t.push v).len = (u.push v).border := congrArg Table.border hr.eq
  have hle := Table.length_le_border_absorb (u.array ++ [v])
    (Table.mapErase u.map (Table.position (u.border + 1)))
  rw [List.length_append, List.length_singleton] at hle
  rw [hlen, hlen', Table.push, if_neg fun hnil => hv (Table.eq_nil_of_isNil hnil)]
  exact hle

/-- A key with a value is what its value stands for. -/
theorem normal_of_get (h : t.Represents u) (hu : u.Proper) (hb : u.border < 0x8000000000000000)
    (hnormal : ∀ k ∈ keys t.map, Key.ofValue k.toValue = .ok k) (hk : t.get k ≠ .nil) :
    Key.ofValue k.toValue = .ok k := by
  rw [h.get] at hk
  cases hslot : u.slot? k with
  | some n =>
    obtain ⟨-, rfl⟩ := (Table.slot?_eq_some_iff hb).1 hslot
    rfl
  | none =>
    refine hnormal k ?_
    rw [show t.map = u.map from congrArg Table.map h.eq, hu.mem_keys_iff]
    exact ⟨hslot, hk⟩

/-- Going through a table lists the values that are read at its keys. -/
theorem mem_pairs_iff (h : t.Represents u) (hu : u.Proper) (hb : u.border < 0x8000000000000000)
    (hnormal : ∀ k ∈ keys t.map, Key.ofValue k.toValue = .ok k) {kv : HostValue} :
    (kv, v) ∈ t.pairs ↔
      (∃ k, Key.ofValue kv = .ok k ∧ kv = k.toValue) ∧ t.lookup kv = v ∧ v ≠ .nil := by
  rw [show t.pairs = u.pairs from congrArg Table.pairs h.eq, Table.mem_pairs_iff hu hb]
  constructor
  · rintro ⟨k, rfl, rfl, hv⟩
    rw [← h.get] at hv ⊢
    have hk := normal_of_get h hu hb hnormal hv
    exact ⟨⟨k, hk, rfl⟩, by rw [lookup, hk], hv⟩
  · rintro ⟨⟨k, hk, rfl⟩, rfl, hv⟩
    rw [lookup, hk] at hv ⊢
    exact ⟨k, rfl, (h.get k).symm, hv⟩

/-- **A table is a finite map with an order.**  Whatever was written before: a write changes
what is read at the values that stand for its key, and nothing else.  Going through the table
lists every key that has a value once, with this value: first the positions in their order,
then the map region in the order in which its keys last came in.  A pushed value is written at
the key behind the border, which moves.  What is nil or not a number is no key: writing there
fails and leaves the table as it was. -/
theorem finite_map_with_order (writes : List TableWrite) (h : ∀ w, Roomy (writes ++ [w]))
    (hnormal : ∀ w ∈ writes, w.Normal) :
    let t := writes.foldl write empty
    (∀ kv k v, Key.ofValue kv = .ok k → t.set kv v = .ok (t.setKey k v) ∧
        ∀ kv', (t.setKey k v).lookup kv' =
          if Key.ofValue kv' = .ok k then v else t.lookup kv') ∧
      ((t.pairs.map Prod.fst).Nodup ∧
        (∀ kv v, (kv, v) ∈ t.pairs ↔
          (∃ k, Key.ofValue kv = .ok k ∧ kv = k.toValue) ∧ t.lookup kv = v ∧ v ≠ .nil) ∧
        t.pairs.map Prod.fst =
          (List.range' 1 t.len).map (fun n => .int (Int64.ofNat n)) ++
            ((entered empty writes).filter (· ∈ keys t.map)).dedup.map Key.toValue ∧
        ∀ w k, k ∈ t.entering w ↔ k ∈ keys (t.write w).map ∧ k ∉ keys t.map) ∧
      (∀ v, v ≠ .nil → t.len < (t.push v).len ∧ ∀ kv, (t.push v).lookup kv =
        if Key.ofValue kv = .ok (Table.position (t.len + 1)) then v else t.lookup kv) ∧
      (∀ kv, (∃ e, Key.ofValue kv = .error e) ↔
        kv = .nil ∨ ∃ x : Binary64, kv = .number x ∧ x.isNaN = true) ∧
      ∀ kv v e, Key.ofValue kv = .error e → t.set kv v = .error e ∧ t.write (.set kv v) = t := by
  have hroom : Roomy writes := fun before hb =>
    h (.push .nil) before (hb.trans (List.prefix_append _ _))
  have hafter : ∀ k v, ((writes.foldl write empty).setKey k v).len < 0x8000000000000000 := by
    intro k v
    have hlast := h (.setKey k v) _ List.prefix_rfl
    rw [List.foldl_append] at hlast
    exact Nat.lt_of_succ_lt hlast
  obtain ⟨hr, hp⟩ := represents_of_writes hroom
  have hkeys := keys_eq_dedup hroom
  have hnormal : ∀ k ∈ keys (writes.foldl write empty).map, Key.ofValue k.toValue = .ok k :=
    fun k => normal_of_mem_keys hroom hnormal
  have hb := hroom writes List.prefix_rfl
  intro t
  generalize writes.foldl Table.write .empty = u at hr hp
  change t.Represents u at hr
  change t.len + 1 < _ at hb
  have hlen : t.len = u.border := congrArg Table.border hr.eq
  have hb' : u.border < 0x8000000000000000 := by omega
  have hpairs : t.pairs = u.pairs := congrArg Table.pairs hr.eq
  have hmap : t.map = u.map := congrArg Table.map hr.eq
  refine ⟨fun kv k v hk => ⟨?_, lookup_setKey hr hp hb' (hafter k v)⟩, ⟨?_, fun kv v => ?_, ?_, ?_⟩,
    fun v hv => ⟨len_lt_push hr (hlen ▸ hb) hv, lookup_setKey hr hp hb' (hafter _ v)⟩,
    fun kv => exists_ofValue_error_iff, fun kv v e he => ⟨?_, ?_⟩⟩
  · rw [set, hk]
    rfl
  · rw [hpairs]
    exact Table.nodup_pairs hp hb'
  · exact mem_pairs_iff hr hp hb' hnormal
  · rw [hpairs, Table.map_fst_pairs, hlen, ← hmap]
    conv_lhs => rw [hkeys]
    rfl
  · exact fun w => (keys_write hr hp hb' w).2
  · rw [set, he]
    rfl
  · rw [write, set, he]
    rfl

/-- Three values of which the second one was taken out: writing at two again. -/
theorem finite_map_with_order_gap :
    let writes := [.push (.int 1), .push (.int 2), .push (.int 3), .set (.int 2) .nil]
    let t := writes.foldl write empty
    (∀ w, Roomy (writes ++ [w])) ∧ (∀ w ∈ writes, w.Normal) ∧ (t.pairs.map Prod.fst).Nodup ∧
      (t.setKey (.int 2) (.int 7)).lookup (.int 2) = .int 7 ∧
      t.len < (t.push (.int 7)).len :=
  have hroom w : Roomy ([.push (.int 1), .push (.int 2), .push (.int 3), .set (.int 2) .nil] ++
    [w]) := roomy_of_length (by simp)
  have hnormal : ∀ w ∈ ([.push (.int 1), .push (.int 2), .push (.int 3), .set (.int 2) .nil] :
      List TableWrite), w.Normal := by simp [TableWrite.Normal]
  have ⟨hset, hpairs, hpush, _⟩ := finite_map_with_order _ hroom hnormal
  ⟨hroom, hnormal, hpairs.1, ((hset (.int 2) _ (.int 7) rfl).2 (.int 2)).trans (if_pos rfl),
    (hpush (.int 7) nofun).1⟩

end IndexedTable
end CommandBridge
