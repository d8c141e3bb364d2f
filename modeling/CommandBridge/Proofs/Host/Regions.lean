/-
# The two regions of a table

The array region of a table holds no nil.  The map region holds no nil and no key
twice, and it holds none of the keys `1, …, N + 1`, where `N` is the length of the
array region (`Proper`).  So `N` is the border: the keys `1, …, N` have values and
`N + 1` has none (`Proper.get_ne_nil`, `Proper.get_next`).  Every write keeps this
(`Proper.write`), as long as the positions of the array region are keys, that is
numbers of 64 bits.  A write adds at most one entry (`entries_set_le`) and brings in no
value but the written one (`contains_write`).
-/

import CommandBridge.Host.Indexed
import CommandBridge.Proofs.Host.Tables
import Mathlib.Data.List.Nodup

namespace CommandBridge

/-- The value that is written. -/
def TableWrite.value : TableWrite → HostValue
  | .set _ v | .setField _ v | .push v | .setKey _ v => v

namespace Table

variable {map : List (Key × HostValue)} {k k' : Key} {v : HostValue} {t : Table}

/-- The keys of a map region. -/
def keys (map : List (Key × HostValue)) : List Key :=
  map.map Prod.fst

@[simp]
theorem keys_nil : keys [] = [] := rfl

@[simp]
theorem keys_cons (p : Key × HostValue) : keys (p :: map) = p.1 :: keys map := rfl

@[simp]
theorem keys_append (map' : List (Key × HostValue)) : keys (map ++ map') = keys map ++ keys map' :=
  List.map_append

theorem mem_keys_of_getElem? {p : Key × HostValue} {n : Nat} (h : map[n]? = some p) :
    p.1 ∈ keys map :=
  List.mem_map_of_mem (List.mem_of_getElem? h)

theorem exists_getElem?_of_mem_keys (h : k ∈ keys map) :
    ∃ (n : Nat) (v : HostValue), map[n]? = some (k, v) := by
  obtain ⟨⟨_, v⟩, hp, rfl⟩ := List.mem_map.1 h
  obtain ⟨n, hn⟩ := List.mem_iff_getElem?.1 hp
  exact ⟨n, v, hn⟩

/-! ### Positions as keys -/

theorem eq_position {i : Int64} {n : Nat} (h : i.toInt = n) : Key.int i = position n := by
  have hlt := i.toInt_lt
  rw [position, ← Int64.toInt_inj.1 (h.trans (Int64.toInt_ofNat_of_lt (by omega)).symm)]

theorem toInt_of_position {i : Int64} {n : Nat} (hn : n < 0x8000000000000000)
    (h : Key.int i = position n) : i.toInt = n := by
  rw [Key.int.inj h, Int64.toInt_ofNat_of_lt hn]

/-! ### The map region -/

theorem mapGet?_eq_none_iff : mapGet? map k = none ↔ k ∉ keys map := by
  simp only [mapGet?, keys, Option.map_eq_none_iff, List.find?_eq_none, beq_iff_eq, List.mem_map,
    not_exists, not_and]

theorem isSome_mapGet?_iff : (mapGet? map k).isSome = true ↔ k ∈ keys map := by
  rw [← Option.ne_none_iff_isSome, Ne, mapGet?_eq_none_iff, not_not]

theorem mem_of_mapGet? (h : mapGet? map k = some v) : (k, v) ∈ map := by
  obtain ⟨p, hp, rfl⟩ := Option.map_eq_some_iff.1 h
  have hk : p.1 = k := by simpa using List.find?_some hp
  exact hk ▸ List.mem_of_find?_eq_some hp

theorem keys_mapInsert : keys (mapInsert map k v) =
    if k ∈ keys map then keys map else keys map ++ [k] := by
  rw [mapInsert]
  by_cases h : k ∈ keys map
  · rw [if_pos h, if_pos (isSome_mapGet?_iff.2 h), keys, keys, List.map_map]
    refine List.map_congr_left fun p _ => ?_
    by_cases hp : p.1 = k <;> simp [hp]
  · rw [if_neg h, if_neg (mt isSome_mapGet?_iff.1 h), keys, keys, List.map_append]
    rfl

theorem mem_keys_mapInsert : k' ∈ keys (mapInsert map k v) ↔ k' = k ∨ k' ∈ keys map := by
  rw [keys_mapInsert]
  split_ifs with h
  · exact ⟨.inr, fun hk => hk.elim (fun hk => hk ▸ h) id⟩
  · simp [or_comm]

theorem keys_mapErase : keys (mapErase map k) = (keys map).filter (· != k) := by
  rw [keys, keys, mapErase, List.filter_map]
  rfl

theorem mem_keys_mapErase : k' ∈ keys (mapErase map k) ↔ k' ≠ k ∧ k' ∈ keys map := by
  simp [keys_mapErase, and_comm]

theorem mapErase_of_not_mem (h : k ∉ keys map) : mapErase map k = map :=
  List.filter_eq_self.2 fun _ hp => bne_iff_ne.2 fun he =>
    h (he ▸ List.mem_map_of_mem hp)

theorem mapInsert_of_not_mem (h : k ∉ keys map) : mapInsert map k v = map ++ [(k, v)] :=
  if_neg (mt isSome_mapGet?_iff.1 h)

section Split

variable {before after : List (Key × HostValue)} {old : HostValue}

/-- The only entry of a key is taken out. -/
theorem mapErase_split (hb : k ∉ keys before) (ha : k ∉ keys after) :
    mapErase (before ++ (k, old) :: after) k = before ++ after := by
  have hb' : before.filter (fun p => p.1 != k) = before := mapErase_of_not_mem hb
  have ha' : after.filter (fun p => p.1 != k) = after := mapErase_of_not_mem ha
  rw [mapErase, List.filter_append, hb', List.filter_cons_of_neg (by simp), ha']

/-- The only entry of a key gets another value where it is. -/
theorem mapInsert_split (hb : k ∉ keys before) (ha : k ∉ keys after) :
    mapInsert (before ++ (k, old) :: after) k v = before ++ (k, v) :: after := by
  have hkeep : ∀ l : List (Key × HostValue), k ∉ keys l →
      (l.map fun p => if p.1 == k then (k, v) else p) = l := fun l hl => by
    refine (List.map_congr_left fun p hp => ?_).trans (List.map_id l)
    rw [if_neg, id_eq]
    exact fun hpk => hl (beq_iff_eq.1 hpk ▸ List.mem_map_of_mem hp)
  have hmem : k ∈ keys (before ++ (k, old) :: after) := by simp
  rw [mapInsert, if_pos (isSome_mapGet?_iff.2 hmem), List.map_append, List.map_cons,
    hkeep before hb, hkeep after ha, if_pos (beq_self_eq_true k)]

end Split

/-- What spilled values are put under are positions behind one another. -/
theorem mem_keys_spill {values : List HostValue} {n : Nat} (h : k ∈ keys (spill map n values)) :
    k ∈ keys map ∨ ∃ m, n ≤ m ∧ m < n + values.length ∧ k = position m := by
  induction values generalizing map n with
  | nil => exact .inl h
  | cons v r ih =>
    rcases ih h with hk | ⟨m, hn, hm, rfl⟩
    · rcases mem_keys_mapInsert.1 hk with rfl | hk
      · exact .inr ⟨n, Nat.le_refl n, by simp, rfl⟩
      · exact .inl hk
    · exact .inr ⟨m, by omega, by rw [List.length_cons]; omega, rfl⟩

/-- A map region has no nil and no key twice. -/
structure Filled (map : List (Key × HostValue)) : Prop where
  not_nil : ∀ p ∈ map, p.2.isNil = false
  nodup : (keys map).Nodup

namespace Filled

theorem mapInsert (h : Filled map) (hv : v.isNil = false) : Filled (mapInsert map k v) where
  not_nil p hp := by
    rw [Table.mapInsert] at hp
    split_ifs at hp
    · obtain ⟨q, hq, rfl⟩ := List.mem_map.1 hp
      split_ifs
      · exact hv
      · exact h.not_nil q hq
    · rcases List.mem_append.1 hp with hp | hp
      · exact h.not_nil p hp
      · exact List.mem_singleton.1 hp ▸ hv
  nodup := by
    rw [keys_mapInsert]
    split_ifs with hk
    · exact h.nodup
    · exact List.nodup_append_comm.1 (List.nodup_cons.2 ⟨hk, h.nodup⟩)

theorem mapErase (h : Filled map) : Filled (mapErase map k) where
  not_nil p hp := h.not_nil p (List.mem_of_mem_filter hp)
  nodup := keys_mapErase ▸ h.nodup.filter _

theorem spill {values : List HostValue} {n : Nat} (h : Filled map)
    (hv : ∀ v ∈ values, v.isNil = false) : Filled (spill map n values) := by
  induction values generalizing map n with
  | nil => exact h
  | cons v r ih =>
    exact ih (h.mapInsert (hv v List.mem_cons_self)) fun w hw =>
      hv w (List.mem_cons_of_mem v hw)

end Filled

/-! ### Both regions -/

/-- No nil in either region, no key twice in the map region, and the map region has
none of the keys up to the one behind the border. -/
structure Proper (t : Table) : Prop where
  not_nil : ∀ v ∈ t.array, v.isNil = false
  filled : Filled t.map
  outside : ∀ i : Int64, 1 ≤ i.toInt → i.toInt ≤ t.border + 1 → Key.int i ∉ keys t.map

theorem slot?_eq_some {n : Nat} (h : t.slot? k = some n) :
    n < t.border ∧ ∃ i : Int64, k = .int i ∧ i.toInt = n + 1 := by
  cases k with
  | int i =>
    rw [slot?] at h
    split_ifs at h with hi
    have hn := Option.some.inj h
    exact ⟨by omega, i, rfl, by omega⟩
  | _ => cases h

theorem proper_empty : empty.Proper where
  not_nil _ h := absurd h List.not_mem_nil
  filled := ⟨fun _ h => absurd h List.not_mem_nil, List.nodup_nil⟩
  outside _ _ _ := List.not_mem_nil

/-- Pulling keys out of the map ends when the key behind the border is not there. -/
theorem proper_absorb {array : List HostValue} (ha : ∀ v ∈ array, v.isNil = false)
    (hm : Filled map)
    (ho : ∀ i : Int64, 1 ≤ i.toInt → i.toInt ≤ array.length → Key.int i ∉ keys map) :
    (absorb array map).Proper := by
  induction array, map using absorb.induct with
  | case1 array map v h ih =>
    rw [absorb, h]
    refine ih ?_ hm.mapErase fun i h1 hi hk => ?_
    · intro w hw
      rcases List.mem_append.1 hw with hw | hw
      · exact ha w hw
      · exact List.mem_singleton.1 hw ▸ hm.not_nil _ (mem_of_mapGet? h)
    · obtain ⟨hne, hk⟩ := mem_keys_mapErase.1 hk
      rw [List.length_append, List.length_singleton] at hi
      rcases Int.lt_or_eq_of_le hi with hlt | heq
      · exact ho i h1 (by omega) hk
      · exact hne (eq_position heq)
  | case2 array map h =>
    rw [absorb, h]
    refine ⟨ha, hm, fun i h1 hi hk => ?_⟩
    rcases Int.lt_or_eq_of_le hi with hlt | heq
    · exact ho i h1 (by change i.toInt < array.length + 1 at hlt; omega) hk
    · exact mapGet?_eq_none_iff.1 h (eq_position (n := array.length + 1) heq ▸ hk)

namespace Proper

theorem mapErase (h : t.Proper) : Proper { t with map := mapErase t.map k } where
  not_nil := h.not_nil
  filled := h.filled.mapErase
  outside i h1 hi hk := h.outside i h1 hi (mem_keys_mapErase.1 hk).2

/-- Appending at the border. -/
theorem absorb (h : t.Proper) (hv : v.isNil = false) :
    (absorb (t.array ++ [v]) (Table.mapErase t.map k)).Proper := by
  refine proper_absorb (fun w hw => ?_) h.filled.mapErase fun i h1 hi hk => ?_
  · rcases List.mem_append.1 hw with hw | hw
    · exact h.not_nil w hw
    · exact List.mem_singleton.1 hw ▸ hv
  · rw [List.length_append, List.length_singleton] at hi
    exact h.outside i h1 hi (mem_keys_mapErase.1 hk).2

/-- Cutting the array region off leaves its tail under positions that lie behind the
new border and are not the next ones. -/
theorem truncate {n : Nat} (h : t.Proper) (hn : n < t.border)
    (hb : t.border < 0x8000000000000000) : (t.truncate n).Proper where
  not_nil v hv := h.not_nil v (List.mem_of_mem_take hv)
  filled := h.filled.spill fun v hv => h.not_nil v (List.mem_of_mem_drop hv)
  outside i h1 hi hk := by
    have hlen : (t.truncate n).border = n := List.length_take_of_le (Nat.le_of_lt hn)
    rw [hlen] at hi
    rcases mem_keys_spill hk with hk | ⟨m, hm, hm', hk⟩
    · exact h.outside i h1 (by omega) hk
    · have hlt : m < n + 2 + (t.border - (n + 1)) := by rwa [List.length_drop] at hm'
      have := toInt_of_position (by omega) hk
      omega

theorem set (h : t.Proper) (hb : t.border < 0x8000000000000000) (k : Key) (v : HostValue) :
    (t.set k v).Proper := by
  rw [Table.set]
  cases hs : t.slot? k with
  | some n =>
    obtain ⟨hn, -⟩ := slot?_eq_some hs
    cases hv : v.isNil with
    | true => exact h.truncate hn hb
    | false =>
      refine ⟨fun w hw => ?_, h.filled, fun i h1 hi => h.outside i h1 ?_⟩
      · rcases List.mem_or_eq_of_mem_set hw with hw | rfl
        · exact h.not_nil w hw
        · exact hv
      · simpa [border] using hi
  | none =>
    cases hv : v.isNil with
    | true => exact h.mapErase
    | false =>
      cases hx : t.isNext k with
      | true => exact h.absorb hv
      | false =>
        refine ⟨h.not_nil, h.filled.mapInsert hv, fun i h1 hi hk => ?_⟩
        rcases mem_keys_mapInsert.1 hk with rfl | hk
        · -- a key up to the next one is in a slot or is the next one
          change i.toInt ≤ t.border + 1 at hi
          rcases Int.lt_or_eq_of_le hi with hlt | heq
          · rw [slot?, if_pos ⟨h1, by omega⟩] at hs
            cases hs
          · rw [isNext, heq, beq_self_eq_true] at hx
            cases hx
        · exact h.outside i h1 hi hk

theorem push (h : t.Proper) (v : HostValue) : (t.push v).Proper := by
  rw [Table.push]
  cases hv : v.isNil with
  | true => exact h.mapErase
  | false => exact h.absorb hv

theorem write (h : t.Proper) (hb : t.border < 0x8000000000000000) (w : TableWrite) :
    (t.write w).Proper := by
  cases w with
  | set k v =>
    rw [Table.write, insert]
    cases Key.ofValue k with
    | ok k => exact h.set hb k v
    | error e => exact h
  | setField name v => exact h.set hb (Key.ofText name) v
  | push v => exact h.push v
  | setKey k v => exact h.set hb k v

/-- The keys up to the border have values. -/
theorem get_ne_nil (h : t.Proper) {i : Int64} (h1 : 1 ≤ i.toInt) (hi : i.toInt ≤ t.border) :
    t.get (.int i) ≠ .nil := by
  have hlt : i.toInt.toNat - 1 < t.array.length := by change _ ≤ (t.array.length : Int) at hi; omega
  have hget : t.get (.int i) = t.array[i.toInt.toNat - 1] := by
    rw [get, slot?, if_pos ⟨h1, hi⟩, List.getElem_eq_getD .nil]
  intro hnil
  have := h.not_nil _ (List.getElem_mem hlt)
  rw [← hget, hnil] at this
  cases this

/-- The key behind the border has no value. -/
theorem get_next (h : t.Proper) {i : Int64} (hi : i.toInt = t.border + 1) :
    t.get (.int i) = .nil := by
  rw [get, slot?, if_neg (by omega)]
  dsimp only
  rw [mapGet?_eq_none_iff.2 (h.outside i (by omega) (Int.le_of_eq hi)), Option.getD_none]

end Proper

/-! ### The number of entries -/

/-- How many keys have values. -/
def entries (t : Table) : Nat :=
  t.array.length + t.map.length

theorem length_mapInsert_le (map : List (Key × HostValue)) (k : Key) (v : HostValue) :
    (mapInsert map k v).length ≤ map.length + 1 := by
  rw [mapInsert]
  split_ifs <;> simp

theorem length_mapErase_le (map : List (Key × HostValue)) (k : Key) :
    (mapErase map k).length ≤ map.length :=
  List.length_filter_le _ _

theorem length_spill_le (map : List (Key × HostValue)) (n : Nat) (values : List HostValue) :
    (spill map n values).length ≤ map.length + values.length := by
  induction values generalizing map n with
  | nil => exact Nat.le_refl _
  | cons v r ih =>
    have := length_mapInsert_le map (position n) v
    rw [spill, List.length_cons]
    exact Nat.le_trans (ih _ _) (by omega)

theorem entries_absorb_le (array : List HostValue) (map : List (Key × HostValue)) :
    (absorb array map).entries ≤ array.length + map.length := by
  induction array, map using absorb.induct with
  | case1 array map v h ih =>
    rw [absorb, h]
    have := length_mapErase_lt h
    rw [List.length_append, List.length_singleton] at ih
    exact Nat.le_trans ih (by omega)
  | case2 array map h =>
    rw [absorb, h]
    exact Nat.le_refl _

theorem entries_append_le : (absorb (t.array ++ [v]) (mapErase t.map k)).entries ≤
    t.entries + 1 := by
  have := length_mapErase_le t.map k
  refine Nat.le_trans (entries_absorb_le _ _) ?_
  rw [List.length_append, List.length_singleton, entries]
  omega

theorem entries_set_le (t : Table) (k : Key) (v : HostValue) :
    (t.set k v).entries ≤ t.entries + 1 := by
  have herase := length_mapErase_le t.map k
  have hinsert := length_mapInsert_le t.map k v
  rw [set]
  cases hs : t.slot? k with
  | some n =>
    obtain ⟨hn, -⟩ := slot?_eq_some hs
    have hspill := length_spill_le t.map (n + 2) (t.array.drop (n + 1))
    dsimp only
    split_ifs
    · simp only [entries, truncate, List.length_take, List.length_drop] at *
      omega
    · simp [entries]
  | none =>
    dsimp only
    split_ifs
    · exact Nat.le_succ_of_le (Nat.add_le_add_left herase _)
    · exact entries_append_le
    · exact Nat.add_le_add_left hinsert _

/-! ### The values -/

/-- The value stands in one of the regions. -/
def Contains (t : Table) (v : HostValue) : Prop :=
  v ∈ t.array ∨ ∃ p ∈ t.map, p.2 = v

theorem mem_mapInsert {p : Key × HostValue} (h : p ∈ mapInsert map k v) : p ∈ map ∨ p.2 = v := by
  rw [mapInsert] at h
  split_ifs at h
  · obtain ⟨q, hq, rfl⟩ := List.mem_map.1 h
    split_ifs
    · exact .inr rfl
    · exact .inl hq
  · rcases List.mem_append.1 h with h | h
    · exact .inl h
    · exact .inr (List.mem_singleton.1 h ▸ rfl)

theorem mem_spill {p : Key × HostValue} {values : List HostValue} {n : Nat}
    (h : p ∈ spill map n values) : p ∈ map ∨ p.2 ∈ values := by
  induction values generalizing map n with
  | nil => exact .inl h
  | cons v r ih =>
    rcases ih h with h | h
    · rcases mem_mapInsert h with h | h
      · exact .inl h
      · exact .inr (h ▸ List.mem_cons_self)
    · exact .inr (List.mem_cons_of_mem v h)

theorem contains_mapErase (h : Contains { t with map := mapErase t.map k } v) :
    t.Contains v := by
  rcases h with h | ⟨p, hp, hv⟩
  · exact .inl h
  · exact .inr ⟨p, List.mem_of_mem_filter hp, hv⟩

/-- Pulling keys out of the map brings no other values in. -/
theorem contains_absorb {array : List HostValue} (h : (absorb array map).Contains v) :
    Contains ⟨array, map⟩ v := by
  induction array, map using absorb.induct with
  | case1 array map u hu ih =>
    rw [absorb, hu] at h
    rcases ih h with h | ⟨p, hp, h⟩
    · rcases List.mem_append.1 h with h | h
      · exact .inl h
      · exact .inr ⟨_, mem_of_mapGet? hu, (List.mem_singleton.1 h).symm⟩
    · exact .inr ⟨p, List.mem_of_mem_filter hp, h⟩
  | case2 array map hu =>
    rwa [absorb, hu] at h

theorem contains_append {u : HostValue}
    (h : (absorb (t.array ++ [v]) (mapErase t.map k)).Contains u) : t.Contains u ∨ u = v := by
  rcases contains_absorb h with h | ⟨p, hp, h⟩
  · rcases List.mem_append.1 h with h | h
    · exact .inl (.inl h)
    · exact .inr (List.mem_singleton.1 h)
  · exact .inl (.inr ⟨p, List.mem_of_mem_filter hp, h⟩)

theorem contains_truncate {n : Nat} (h : (t.truncate n).Contains v) : t.Contains v := by
  rcases h with h | ⟨p, hp, rfl⟩
  · exact .inl (List.mem_of_mem_take h)
  · rcases mem_spill hp with hp | hp
    · exact .inr ⟨p, hp, rfl⟩
    · exact .inl (List.mem_of_mem_drop hp)

theorem contains_set {u : HostValue} (h : (t.set k v).Contains u) : t.Contains u ∨ u = v := by
  rw [set] at h
  split at h
  · split_ifs at h
    · exact .inl (contains_truncate h)
    · rcases h with h | h
      · exact (List.mem_or_eq_of_mem_set h).imp_left .inl
      · exact .inl (.inr h)
  · split_ifs at h
    · exact .inl (contains_mapErase h)
    · exact contains_append h
    · rcases h with h | ⟨p, hp, rfl⟩
      · exact .inl (.inl h)
      · exact (mem_mapInsert hp).imp_left fun hp => .inr ⟨p, hp, rfl⟩

/-- **A write brings in the written value only.** -/
theorem contains_write {w : TableWrite} (h : (t.write w).Contains v) :
    t.Contains v ∨ v = w.value := by
  cases w with
  | set k u =>
    rw [write, insert] at h
    cases hk : Key.ofValue k with
    | ok k =>
      rw [hk] at h
      exact contains_set h
    | error e =>
      rw [hk] at h
      exact .inl h
  | setField name u => exact contains_set h
  | push u =>
    change (t.push u).Contains v at h
    rw [push] at h
    split_ifs at h
    · exact .inl (contains_mapErase h)
    · exact contains_append h
  | setKey k u => exact contains_set h

end Table
end CommandBridge
