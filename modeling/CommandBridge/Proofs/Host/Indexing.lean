/-
# Tables with an index

In a table with an index, the index maps exactly the keys of the map region, each to
its own slot (`Indexed`).  Such a table behaves as the same table without the index
(`Represents`): one lemma for each operation says so, and with the lemmas on the two
regions it follows that whatever is written to a table, its representation is well
formed (`wellFormed_of_writes`).

The positions of the array region are keys of 64 bits, so the array region has to end
before they do (`Roomy`).  No memory holds an array that long, and it takes as many
writes to get there (`roomy_of_length`).
-/

import CommandBridge.Proofs.Host.Regions
import CommandBridge.Proofs.Number.Literal
import Mathlib.Data.List.Induction

namespace CommandBridge
namespace IndexedTable

open Table (keys keys_nil keys_cons keys_append mem_keys_of_getElem? exists_getElem?_of_mem_keys
  mapGet?_eq_none_iff)

variable {t : IndexedTable} {u : Table} {k k' : Key} {v : HostValue} {slot : Nat}

/-- The index maps exactly the keys of the map region, each to its own slot. -/
def Indexed (t : IndexedTable) : Prop :=
  ∀ (k : Key) (n : Nat), t.index[k]? = some n ↔ (t.map[n]?).map Prod.fst = some k

theorem indexed_empty : empty.Indexed := fun k n => by
  simp [empty]

/-- It is enough that every entry is found at its place and nothing else is found. -/
theorem indexed_of
    (hs : ∀ (n : Nat) (p : Key × HostValue), t.map[n]? = some p → t.index[p.1]? = some n)
    (hn : ∀ k, k ∉ keys t.map → t.index[k]? = none) : t.Indexed := by
  refine fun k n => ⟨fun h => ?_, fun h => ?_⟩
  · have hk : k ∈ keys t.map := by
      by_contra hk
      rw [hn k hk] at h
      cases h
    obtain ⟨m, v, hm⟩ := exists_getElem?_of_mem_keys hk
    rw [hs m _ hm] at h
    rw [← Option.some.inj h, hm, Option.map_some]
  · obtain ⟨p, hp, rfl⟩ := Option.map_eq_some_iff.1 h
    exact hs n p hp

namespace Indexed

theorem found (h : t.Indexed) {n : Nat} {p : Key × HostValue} (hp : t.map[n]? = some p) :
    t.index[p.1]? = some n :=
  (h p.1 n).2 (by rw [hp, Option.map_some])

theorem eq_none_iff (h : t.Indexed) : t.index[k]? = none ↔ k ∉ keys t.map := by
  constructor
  · intro hk hm
    obtain ⟨n, v, hn⟩ := exists_getElem?_of_mem_keys hm
    rw [h.found hn] at hk
    cases hk
  · intro hk
    rw [Option.eq_none_iff_forall_ne_some]
    intro n hn
    obtain ⟨p, hp, rfl⟩ := Option.map_eq_some_iff.1 ((h k n).1 hn)
    exact hk (mem_keys_of_getElem? hp)

/-- No key is there twice, since two entries of one key would have two slots. -/
theorem nodup (h : t.Indexed) : (keys t.map).Nodup := by
  rw [List.nodup_iff_getElem?_ne_getElem?]
  intro i j hij hj he
  rw [keys, List.length_map] at hj
  simp only [keys, List.getElem?_map] at he
  have hp : (t.map[j]?).map Prod.fst = some t.map[j].1 := by
    rw [List.getElem?_eq_getElem hj, Option.map_some]
  have h1 := (h _ i).2 (he.trans hp)
  rw [(h _ j).2 hp] at h1
  exact Nat.ne_of_gt hij (Option.some.inj h1)

/-- The entry of a key splits the map region at its slot. -/
theorem split (h : t.Indexed) (hk : t.index[k]? = some slot) : ∃ before v after,
    t.map = before ++ (k, v) :: after ∧ before.length = slot ∧
      k ∉ keys before ∧ k ∉ keys after := by
  obtain ⟨⟨k', v⟩, hp, rfl⟩ := Option.map_eq_some_iff.1 ((h k slot).1 hk)
  obtain ⟨hlt, he⟩ := List.getElem?_eq_some_iff.1 hp
  have hmap : t.map = t.map.take slot ++ (k', v) :: t.map.drop (slot + 1) := by
    rw [← he, List.getElem_cons_drop, List.take_append_drop]
  have hnodup : (keys (t.map.take slot) ++ k' :: keys (t.map.drop (slot + 1))).Nodup := by
    rw [← keys_cons (k', v), ← keys_append, ← hmap]
    exact h.nodup
  obtain ⟨-, ha, hd⟩ := List.nodup_append.1 hnodup
  exact ⟨_, v, _, hmap, List.length_take_of_le (Nat.le_of_lt hlt),
    fun hb => hd k' hb k' List.mem_cons_self rfl, (List.nodup_cons.1 ha).1⟩

theorem mapGet? (h : t.Indexed) (k : Key) :
    ((t.index[k]?).bind fun slot => t.map[slot]?).map (·.2) = Table.mapGet? t.map k := by
  cases hk : t.index[k]? with
  | none =>
    rw [mapGet?_eq_none_iff.2 (h.eq_none_iff.1 hk)]
    rfl
  | some slot =>
    obtain ⟨before, v, after, hmap, rfl, hb, -⟩ := h.split hk
    have hfind : before.find? (fun p => p.1 == k) = none :=
      Option.map_eq_none_iff.1 (mapGet?_eq_none_iff.2 hb)
    simp [hmap, Table.mapGet?, List.find?_append, hfind]

end Indexed

theorem getElem?_shiftSlots {entries : List (Key × HostValue)} (h : (keys entries).Nodup)
    (index : Std.ExtHashMap Key Nat) : (shiftSlots index entries)[k]? =
      if k ∈ keys entries then (index[k]?).map (· - 1) else index[k]? := by
  induction entries generalizing index with
  | nil => rfl
  | cons p r ih =>
    rw [keys_cons] at h ⊢
    obtain ⟨hp, hr⟩ := List.nodup_cons.1 h
    change (shiftSlots (index.modify p.1 (· - 1)) r)[k]? = _
    rw [ih hr, Std.ExtHashMap.getElem?_modify]
    by_cases hk : p.1 = k
    · subst hk
      rw [if_neg hp, if_pos (beq_self_eq_true _), if_pos List.mem_cons_self]
    · simp [hk, Ne.symm hk]

/-! ### The operations, one by one -/

/-- A table with an index that is right stands for the table without it. -/
structure Represents (t : IndexedTable) (u : Table) : Prop where
  indexed : t.Indexed
  eq : t.toTable = u

namespace Represents

theorem get (h : t.Represents u) (k : Key) : t.get k = u.get k := by
  rw [IndexedTable.get, Table.get, h.indexed.mapGet?, ← h.eq]
  rfl

theorem append (h : t.Represents u) (v : HostValue) :
    (t.append v).Represents { u with array := u.array ++ [v] } :=
  ⟨h.indexed, by rw [← h.eq]; rfl⟩

theorem mapInsert (h : t.Represents u) (k : Key) (v : HostValue) :
    (t.mapInsert k v).Represents { u with map := Table.mapInsert u.map k v } := by
  obtain ⟨hi, rfl⟩ := h
  rw [IndexedTable.mapInsert]
  cases hk : t.index[k]? with
  | none =>
    have habsent := hi.eq_none_iff.1 hk
    refine ⟨indexed_of (fun n p hp => ?_) fun k' hk' => ?_, ?_⟩
    · dsimp only at hp ⊢
      simp only [Std.ExtHashMap.getElem?_insert, beq_iff_eq]
      rcases Nat.lt_or_ge n t.map.length with hn | hn
      · rw [List.getElem?_append_left hn] at hp
        rw [if_neg fun h : k = p.1 => habsent (h ▸ mem_keys_of_getElem? hp), hi.found hp]
      · rw [List.getElem?_append_right hn, List.getElem?_singleton] at hp
        split_ifs at hp with hn'
        rw [← Option.some.inj hp, if_pos rfl]
        exact congrArg some (by omega)
    · dsimp only at hk' ⊢
      simp only [keys_append, keys_cons, keys_nil, List.mem_append, List.mem_singleton,
        not_or] at hk'
      simp only [Std.ExtHashMap.getElem?_insert, beq_iff_eq]
      rw [if_neg (Ne.symm hk'.2), hi.eq_none_iff.2 hk'.1]
    · exact congrArg (Table.mk t.array) (Table.mapInsert_of_not_mem habsent).symm
  | some slot =>
    obtain ⟨before, old, after, hmap, rfl, hb, ha⟩ := hi.split hk
    constructor
    · intro k' n
      dsimp only
      rw [hi k' n, List.getElem?_modify]
      cases t.map[n]? with
      | none => rfl
      | some p => simp only [Option.map_eq_map, Option.map_some, apply_ite Prod.fst, ite_self]
    · refine congrArg (Table.mk t.array) ?_
      change _ = Table.mapInsert t.map k v
      rw [hmap, Table.mapInsert_split hb ha]
      simp [List.modify_eq_take_cons_drop]

theorem mapRemove (h : t.Represents u) (k : Key) :
    (t.mapRemove k).1 = Table.mapGet? u.map k ∧
      (t.mapRemove k).2.Represents { u with map := Table.mapErase u.map k } := by
  obtain ⟨hi, rfl⟩ := h
  have hget := hi.mapGet? k
  rw [IndexedTable.mapRemove]
  cases hk : t.index[k]? with
  | none =>
    rw [hk] at hget
    exact ⟨hget, hi,
      congrArg (Table.mk t.array) (Table.mapErase_of_not_mem (hi.eq_none_iff.1 hk)).symm⟩
  | some slot =>
    rw [hk] at hget
    obtain ⟨before, old, after, hmap, rfl, hb, ha⟩ := hi.split hk
    have herase : t.map.eraseIdx before.length = before ++ after := by
      simp [hmap, List.eraseIdx_append_of_length_le]
    have hdrop : t.map.drop (before.length + 1) = after := by simp [hmap]
    have hnodup : (keys before ++ k :: keys after).Nodup := by
      simpa [hmap] using hi.nodup
    obtain ⟨-, hafter, hdisjoint⟩ := List.nodup_append.1 hnodup
    refine ⟨hget, indexed_of (fun n p hp => ?_) fun k' hk' => ?_, ?_⟩
    · dsimp only at hp ⊢
      rw [herase] at hp
      rw [hdrop, getElem?_shiftSlots (List.nodup_cons.1 hafter).2]
      simp only [Std.ExtHashMap.getElem?_erase, beq_iff_eq]
      rcases Nat.lt_or_ge n before.length with hn | hn
      · -- an entry before the slot stays where it is
        rw [List.getElem?_append_left hn] at hp
        have hold : t.index[p.1]? = some n :=
          hi.found (by rw [hmap, List.getElem?_append_left hn, hp])
        have hne := hdisjoint p.1 (mem_keys_of_getElem? hp)
        rw [if_neg fun h => hne p.1 (List.mem_cons_of_mem k h) rfl,
          if_neg (Ne.symm (hne k List.mem_cons_self)), hold]
      · -- an entry behind the slot moves down with its slot
        rw [List.getElem?_append_right hn] at hp
        have hold : t.index[p.1]? = some (n + 1) :=
          hi.found (by rw [hmap, List.getElem?_append_right (by omega), Nat.succ_sub hn,
            List.getElem?_cons_succ, hp])
        have hmem : p.1 ∈ keys after := mem_keys_of_getElem? hp
        rw [if_pos hmem, if_neg fun h : k = p.1 => ha (h ▸ hmem), hold]
        rfl
    · dsimp only at hk' ⊢
      rw [herase, keys_append, List.mem_append, not_or] at hk'
      rw [hdrop, getElem?_shiftSlots (List.nodup_cons.1 hafter).2, if_neg hk'.2]
      simp only [Std.ExtHashMap.getElem?_erase, beq_iff_eq]
      split_ifs with hkk
      · rfl
      · refine hi.eq_none_iff.2 ?_
        rw [hmap, keys_append, keys_cons, List.mem_append, List.mem_cons, not_or, not_or]
        exact ⟨hk'.1, Ne.symm hkk, hk'.2⟩
    · refine congrArg (Table.mk t.array) ?_
      change t.map.eraseIdx before.length = Table.mapErase t.map k
      rw [herase, hmap, Table.mapErase_split hb ha]

theorem migrateBorder (h : t.Represents u) :
    t.migrateBorder.Represents (Table.absorb u.array u.map) := by
  induction t using IndexedTable.migrateBorder.induct generalizing u with
  | case1 t v hv ih =>
    obtain ⟨hget, hrest⟩ := h.mapRemove (Table.position (t.len + 1))
    obtain ⟨-, rfl⟩ := h
    have hnext : Table.mapGet? t.map (Table.position (t.array.length + 1)) = some v :=
      hget.symm.trans hv
    rw [IndexedTable.migrateBorder, hv]
    change Represents _ (Table.absorb t.array t.map)
    rw [Table.absorb, hnext]
    exact ih (hrest.append v)
  | case2 t hv =>
    obtain ⟨hget, hrest⟩ := h.mapRemove (Table.position (t.len + 1))
    obtain ⟨-, rfl⟩ := h
    have hnext : Table.mapGet? t.map (Table.position (t.array.length + 1)) = none :=
      hget.symm.trans hv
    have herase : Table.mapErase t.map (Table.position (t.array.length + 1)) = t.map :=
      Table.mapErase_of_not_mem (mapGet?_eq_none_iff.1 hnext)
    rw [IndexedTable.migrateBorder, hv]
    change Represents _ (Table.absorb t.array t.map)
    rw [Table.absorb, hnext]
    exact ⟨hrest.indexed, hrest.eq.trans (congrArg (Table.mk t.array) herase)⟩

theorem spill {values : List HostValue} {n : Nat} (h : t.Represents u) :
    (t.spill n values).Represents { u with map := Table.spill u.map n values } := by
  induction values generalizing t u n with
  | nil => exact h
  | cons v r ih => exact ih (h.mapInsert (Table.position n) v)

theorem truncate (h : t.Represents u) (n : Nat) : (t.truncate n).Represents (u.truncate n) := by
  obtain ⟨hi, rfl⟩ := h
  have hcut : Represents { t with array := t.array.take n } ⟨t.array.take n, t.map⟩ := ⟨hi, rfl⟩
  exact hcut.spill

theorem setKey (h : t.Represents u) (k : Key) (v : HostValue) :
    (t.setKey k v).Represents (u.set k v) := by
  have hu := h.eq
  rw [IndexedTable.setKey, hu, Table.set]
  cases u.slot? k with
  | some n =>
    dsimp only
    split_ifs
    · exact h.truncate n
    · subst hu
      exact ⟨h.indexed, rfl⟩
  | none =>
    dsimp only
    split_ifs
    · exact (h.mapRemove k).2
    · exact ((h.mapRemove k).2.append v).migrateBorder
    · exact h.mapInsert k v

theorem push (h : t.Represents u) (hb : u.border + 1 < 0x8000000000000000) (v : HostValue) :
    (t.push v).Represents (u.push v) := by
  have hlen : t.len = u.border := congrArg Table.border h.eq
  rw [Table.push_eq_set hb, IndexedTable.push, hlen]
  exact h.setKey _ v

theorem write (h : t.Represents u) (hb : u.border + 1 < 0x8000000000000000) (w : TableWrite) :
    (t.write w).Represents (u.write w) := by
  cases w with
  | set k v =>
    rw [IndexedTable.write, Table.write, IndexedTable.set, Table.insert]
    cases Key.ofValue k with
    | ok k => exact h.setKey k v
    | error e => exact h
  | setField name v => exact h.setKey (Key.ofText name) v
  | push v => exact h.push hb v
  | setKey k v => exact h.setKey k v

end Represents

/-! ### Sequences of writes -/

/-- The array region stays short enough for its positions, and the one behind them, to
be keys. -/
def Roomy (writes : List TableWrite) : Prop :=
  ∀ before, before <+: writes → (before.foldl write empty).len + 1 < 0x8000000000000000

/-- Every write adds at most one entry. -/
theorem entries_write_le (h : t.Indexed) (w : TableWrite) :
    (t.write w).Indexed ∧ (t.write w).toTable.entries ≤ t.toTable.entries + 1 := by
  have hset : ∀ k v, (t.setKey k v).Indexed ∧
      (t.setKey k v).toTable.entries ≤ t.toTable.entries + 1 := fun k v => by
    have hr : (t.setKey k v).Represents (t.toTable.set k v) := Represents.setKey ⟨h, rfl⟩ k v
    exact ⟨hr.indexed, hr.eq ▸ Table.entries_set_le t.toTable k v⟩
  cases w with
  | set k v =>
    rw [write, set]
    cases Key.ofValue k with
    | ok k => exact hset k v
    | error e => exact ⟨h, Nat.le_succ _⟩
  | setField name v => exact hset (Key.ofText name) v
  | push v => exact hset _ v
  | setKey k v => exact hset k v

/-- It takes as many writes as there are positions to fill the array region. -/
theorem roomy_of_length {writes : List TableWrite}
    (h : writes.length + 1 < 0x8000000000000000) : Roomy writes := by
  have hentries : ∀ ws : List TableWrite, (ws.foldl write empty).Indexed ∧
      (ws.foldl write empty).toTable.entries ≤ ws.length := fun ws => by
    induction ws using List.reverseRecOn with
    | nil => exact ⟨indexed_empty, Nat.le_refl 0⟩
    | append_singleton ws w ih =>
      obtain ⟨hi, hle⟩ := entries_write_le ih.1 w
      rw [List.foldl_append, List.length_append, List.length_singleton]
      exact ⟨hi, Nat.le_trans hle (Nat.succ_le_succ ih.2)⟩
  intro before hp
  have hlen : (before.foldl write empty).len ≤ (before.foldl write empty).toTable.entries :=
    Nat.le_add_right _ _
  have := (hentries before).2
  have := hp.length_le
  omega

/-- The representation of a table: no nil in either region, no key twice in the map
region nor any of the keys up to the one behind the array region, and the index maps the
keys of the map region to their slots. -/
structure WellFormed (t : IndexedTable) : Prop where
  proper : t.toTable.Proper
  indexed : t.Indexed

theorem represents_of_writes {writes : List TableWrite} (h : Roomy writes) :
    (writes.foldl write empty).Represents (writes.foldl Table.write .empty) ∧
      (writes.foldl Table.write .empty).Proper := by
  induction writes using List.reverseRecOn with
  | nil => exact ⟨⟨indexed_empty, rfl⟩, Table.proper_empty⟩
  | append_singleton ws w ih =>
    obtain ⟨hr, hp⟩ := ih fun before hb => h before (hb.trans (List.prefix_append ws [w]))
    have hb := h ws (List.prefix_append ws [w])
    have hlen : (ws.foldl write empty).len = (ws.foldl Table.write .empty).border :=
      congrArg Table.border hr.eq
    rw [hlen] at hb
    rw [List.foldl_append, List.foldl_append]
    exact ⟨hr.write hb w, hp.write (by omega) w⟩

/-! ### Numbers as keys -/

theorem isNaN_of_toInt? {x : Binary64} {i : Int} (h : x.toInt? = some i) : x.isNaN = false := by
  rw [Binary64.toInt?] at h
  split_ifs at h with hf
  have hfinite : x.exponentField ≠ 2047 := by
    simpa [Binary64.isFinite] using (Bool.and_eq_true_iff.1 hf).1
  rw [Binary64.isNaN, beq_eq_false_iff_ne.2 hfinite, Bool.false_and]

/-- A number that equals an integer is the key of that integer. -/
theorem ofValue_of_toInt? {x : Binary64} {i : Int64} (h : x.toInt? = some i.toInt) :
    Key.ofValue (.number x) = .ok (.int i) := by
  have hi : (HostValue.number x).toInteger? = some i := by
    rw [HostValue.toInteger?, h, Option.bind_some, Integer.word?_toInt]
  rw [Key.ofValue, if_neg (by simp [isNaN_of_toInt? h]), hi]

/-- **Whatever is written to a table, its representation is well formed**, and without
its index it is the table that the same writes make without one.  Its length is the
border: the positions up to it have values and the next one has none.  A number that
equals an integer is the key of that integer. -/
theorem wellFormed_of_writes (values : List HostValue) (writes : List TableWrite)
    (h : Roomy (values.map .push ++ writes)) :
    let t := writes.foldl write (ofValues values)
    t.WellFormed ∧
      t.toTable = writes.foldl Table.write (.ofValues values) ∧
      (∀ k, t.get k = (writes.foldl Table.write (.ofValues values)).get k) ∧
      (∀ n, 1 ≤ n → n ≤ t.len → t.get (Table.position n) ≠ .nil) ∧
      t.get (Table.position (t.len + 1)) = .nil ∧
      ∀ (x : Binary64) (i : Int64), x.toInt? = some i.toInt →
        Key.ofValue (.number x) = .ok (.int i) ∧
        t.lookup (.number x) = t.get (.int i) ∧
        ∀ v, t.set (.number x) v = .ok (t.setKey (.int i) v) := by
  obtain ⟨hr, hp⟩ := represents_of_writes h
  have hroom := h _ (List.prefix_rfl)
  simp only [List.foldl_append, List.foldl_map] at hr hp hroom
  change Represents (writes.foldl write (ofValues values))
    (writes.foldl Table.write (.ofValues values)) at hr
  change (writes.foldl Table.write (.ofValues values)).Proper at hp
  change (writes.foldl write (ofValues values)).len + 1 < _ at hroom
  intro t
  have hlen : t.len = (writes.foldl Table.write (.ofValues values)).border :=
    congrArg Table.border hr.eq
  have hposition : ∀ n, n ≤ t.len + 1 → (Int64.ofNat n).toInt = n := fun n hn =>
    Int64.toInt_ofNat_of_lt (Nat.lt_of_le_of_lt hn hroom)
  refine ⟨⟨hr.eq ▸ hp, hr.indexed⟩, hr.eq, hr.get, fun n h1 hn => ?_, ?_, fun x i hx => ?_⟩
  · have hn' := hposition n (Nat.le_succ_of_le hn)
    rw [hr.get]
    exact hp.get_ne_nil (by omega) (by omega)
  · have hn' := hposition (t.len + 1) (Nat.le_refl _)
    rw [hr.get]
    exact hp.get_next (by omega)
  · have hk := ofValue_of_toInt? hx
    exact ⟨hk, by rw [lookup, hk], fun v => by rw [set, hk]; rfl⟩

/-- A table of three values, the second one taken out and put back under the number two. -/
theorem wellFormed_of_gap : Roomy ([.int 1, .int 2, .int 3].map .push ++
      [.setKey (Table.position 2) .nil, .set (.number (.ofInt 2)) (.int 5)]) ∧
    ([.setKey (Table.position 2) .nil, .set (.number (.ofInt 2)) (.int 5)].foldl write
      (ofValues [.int 1, .int 2, .int 3])).WellFormed :=
  have h := roomy_of_length (by decide)
  ⟨h, (wellFormed_of_writes _ _ h).1⟩

end IndexedTable
end CommandBridge
