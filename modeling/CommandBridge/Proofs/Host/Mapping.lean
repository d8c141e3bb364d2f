/-
# A table is a finite map

Whatever a write moves between the two regions, it changes the value of its own key only
(`get_set`): pulling keys into the array region changes no value (`get_absorb`), and
cutting the array region off takes the value of one position (`get_truncate`).

The keys of the array region are its positions, and none of them is in the map region, so
going through both regions lists every key that has a value once, with that value
(`mem_pairs_iff`, `nodup_pairs`).
-/

import CommandBridge.Proofs.Host.Regions

namespace CommandBridge
namespace Table

variable {array : List HostValue} {map : List (Key × HostValue)} {k k' : Key} {v : HostValue}
  {t : Table} {n : Nat}

/-! ### Keys and positions -/

/-- Positions that are numbers of 64 bits are different keys. -/
theorem position_inj {m : Nat} (hn : n < 0x8000000000000000) (hm : m < 0x8000000000000000)
    (h : position n = position m) : n = m := by
  have htoInt := toInt_of_position hm h
  rw [Int64.toInt_ofNat_of_lt hn] at htoInt
  omega

theorem position_ne {m : Nat} (hn : n < 0x8000000000000000) (hm : m < 0x8000000000000000)
    (h : n ≠ m) : position n ≠ position m :=
  mt (position_inj hn hm) h

/-- A key names a place of the array region if it is one of its positions. -/
theorem slot?_eq_some_iff (hb : t.border < 0x8000000000000000) :
    t.slot? k = some n ↔ n < t.border ∧ k = position (n + 1) := by
  constructor
  · intro h
    obtain ⟨hn, i, rfl, hi⟩ := slot?_eq_some h
    exact ⟨hn, eq_position (by omega)⟩
  · rintro ⟨hn, rfl⟩
    rw [position, slot?, Int64.toInt_ofNat_of_lt (by omega), if_pos (by omega)]
    congr 1

theorem slot?_eq_none_iff (hb : t.border < 0x8000000000000000) :
    t.slot? k = none ↔ ∀ n < t.border, k ≠ position (n + 1) := by
  rw [Option.eq_none_iff_forall_ne_some]
  exact forall_congr' fun n => by rw [Ne, slot?_eq_some_iff hb, not_and]

theorem get_position (hb : t.border < 0x8000000000000000) (hn : n < t.border) :
    t.get (position (n + 1)) = t.array.getD n .nil := by
  rw [get, (slot?_eq_some_iff hb).2 ⟨hn, rfl⟩]

theorem get_of_slot?_eq_none (h : t.slot? k = none) : t.get k = (mapGet? t.map k).getD .nil := by
  rw [get, h]

/-- Which keys name places depends on the length of the array region only. -/
theorem slot?_congr {u : Table} (h : u.border = t.border) (k : Key) : u.slot? k = t.slot? k := by
  cases k with
  | int i => rw [slot?, slot?, h]
  | _ => rfl

/-- The key behind the border names no place. -/
theorem slot?_next (hb : t.border + 1 < 0x8000000000000000) :
    t.slot? (position (t.border + 1)) = none :=
  (slot?_eq_none_iff (by omega)).2 fun _ hn => position_ne hb (by omega) (by omega)

theorem eq_position_of_isNext (h : t.isNext k = true) : k = position (t.border + 1) := by
  cases k with
  | int i => exact eq_position (beq_iff_eq.1 h)
  | _ => cases h

/-- The keys of the map region are no places of the array region. -/
theorem Proper.slot?_of_mem (h : t.Proper) (hk : k ∈ keys t.map) : t.slot? k = none := by
  cases hslot : t.slot? k with
  | none => rfl
  | some n =>
    obtain ⟨hn, i, rfl, hi⟩ := slot?_eq_some hslot
    exact absurd hk (h.outside i (by omega) (by omega))

/-- The positions of the array region are not in the map region. -/
theorem Proper.position_not_mem (h : t.Proper) (hb : t.border < 0x8000000000000000)
    (hn : n < t.border) : position (n + 1) ∉ keys t.map := fun hmem =>
  (slot?_eq_none_iff hb).1 (h.slot?_of_mem hmem) n hn rfl

theorem eq_nil_of_isNil (h : v.isNil = true) : v = .nil := by
  cases v <;> first | rfl | cases h

theorem ne_nil_of_isNil (h : v.isNil = false) : v ≠ .nil := by
  rintro rfl
  cases h

/-! ### The map region -/

theorem mapGet?_cons (p : Key × HostValue) :
    mapGet? (p :: map) k = if p.1 = k then some p.2 else mapGet? map k := by
  rw [mapGet?, List.find?_cons]
  by_cases hp : p.1 = k
  · rw [if_pos hp, beq_iff_eq.2 hp]
    rfl
  · rw [if_neg hp, beq_eq_false_iff_ne.2 hp]
    rfl

theorem mapGet?_mapErase :
    mapGet? (mapErase map k) k' = if k' = k then none else mapGet? map k' := by
  split
  · subst k'
    exact mapGet?_eq_none_iff.2 fun h => (mem_keys_mapErase.1 h).1 rfl
  · rename_i hne
    rw [mapGet?, mapErase, List.find?_filter, mapGet?]
    congr 2
    funext p
    by_cases hp : p.1 = k' <;> simp [hp, hne]

/-- The entries of a key get another value where they are. -/
theorem mapGet?_replace (map : List (Key × HostValue)) (k k' : Key) (v : HostValue) :
    mapGet? (map.map fun p => if p.1 == k then (k, v) else p) k' =
      (mapGet? map k').map fun old => if k' = k then v else old := by
  induction map with
  | nil => rfl
  | cons p map ih =>
    rw [List.map_cons, mapGet?_cons, mapGet?_cons, ih]
    by_cases hp : p.1 = k
    · rw [if_pos (beq_iff_eq.2 hp), hp]
      split
      · rename_i hk
        rw [Option.map_some, if_pos hk.symm]
      · rfl
    · rw [if_neg (mt beq_iff_eq.1 hp)]
      split
      · rename_i hk
        rw [Option.map_some, if_neg fun h => hp (hk.trans h)]
      · rfl

theorem mapGet?_mapInsert :
    mapGet? (mapInsert map k v) k' = if k' = k then some v else mapGet? map k' := by
  rw [mapInsert]
  split
  · rename_i hsome
    rw [mapGet?_replace]
    split
    · subst k'
      obtain ⟨old, hold⟩ := Option.isSome_iff_exists.1 hsome
      rw [hold]
      rfl
    · exact Option.map_id'
  · rename_i hnone
    rw [mapGet?, List.find?_append, Option.map_or]
    change (mapGet? map k').or (mapGet? [(k, v)] k') = _
    rw [mapGet?_cons]
    by_cases hk : k' = k
    · subst k'
      rw [Option.not_isSome_iff_eq_none.1 hnone, Option.none_or, if_pos rfl, if_pos rfl]
    · rw [if_neg (Ne.symm hk), if_neg hk]
      exact Option.or_none

/-- Spilled values are under their positions, and nothing else has changed. -/
theorem mapGet?_spill (map : List (Key × HostValue)) {values : List HostValue}
    (hn : n + values.length ≤ 0x8000000000000000) :
    (∀ m < values.length, mapGet? (spill map n values) (position (n + m)) = values[m]?) ∧
      ∀ k, (∀ m < values.length, k ≠ position (n + m)) →
        mapGet? (spill map n values) k = mapGet? map k := by
  induction values generalizing map n with
  | nil => exact ⟨fun m hm => absurd hm m.not_lt_zero, fun _ _ => rfl⟩
  | cons v rest ih =>
    rw [List.length_cons] at hn
    obtain ⟨hhere, helse⟩ := ih (mapInsert map (position n) v) (n := n + 1) (by omega)
    rw [spill]
    refine ⟨fun m hm => ?_, fun k hk => ?_⟩
    · rw [List.length_cons] at hm
      cases m with
      | zero =>
        rw [helse _ fun m hm he => ?_, mapGet?_mapInsert, Nat.add_zero, if_pos rfl]
        · rfl
        · exact position_ne (by omega) (by omega) (by omega) he
      | succ m =>
        rw [List.getElem?_cons_succ, ← hhere m (by omega), Nat.add_assoc, Nat.add_comm 1 m]
    · have hne : k ≠ position n := hk 0 (Nat.succ_pos _)
      rw [helse k fun m hm he => hk (m + 1) (Nat.succ_lt_succ hm) ?_, mapGet?_mapInsert, if_neg hne]
      rw [he, Nat.add_assoc, Nat.add_comm 1 m]

/-! ### Reading after a write -/

/-- What the map region has at a key that names no place is read at this key only. -/
theorem get_withMap {value : Option HostValue} (hk : t.slot? k = none)
    (hmap : ∀ k', mapGet? map k' = if k' = k then value else mapGet? t.map k') (k' : Key) :
    get { t with map := map } k' = if k' = k then value.getD .nil else t.get k' := by
  rw [get, get, slot?_congr (u := { t with map := map }) (t := t) rfl]
  cases hk' : t.slot? k' with
  | some n =>
    rw [if_neg]
    rintro rfl
    cases hk.symm.trans hk'
  | none =>
    dsimp only
    rw [hmap]
    split <;> rfl

/-- A key is taken out of the map region. -/
theorem get_mapErase (hk : t.slot? k = none) (k' : Key) :
    get { t with map := mapErase t.map k } k' = if k' = k then .nil else t.get k' :=
  get_withMap hk (fun _ => mapGet?_mapErase) k'

/-- A value is put into the map region. -/
theorem get_mapInsert (hk : t.slot? k = none) (k' : Key) :
    get { t with map := mapInsert t.map k v } k' = if k' = k then v else t.get k' :=
  get_withMap hk (fun _ => mapGet?_mapInsert) k'

/-- A value of the array region is replaced. -/
theorem get_setArray (hb : t.border < 0x8000000000000000) (hn : n < t.border) (k : Key) :
    get { t with array := t.array.set n v } k = if k = position (n + 1) then v else t.get k := by
  have hslot := slot?_congr (u := { t with array := t.array.set n v }) (t := t) List.length_set
  rw [get, get, hslot]
  cases hk : t.slot? k with
  | some m =>
    obtain ⟨hm, rfl⟩ := (slot?_eq_some_iff hb).1 hk
    dsimp only
    rw [List.getD_eq_getElem?_getD, List.getD_eq_getElem?_getD, List.getElem?_set]
    by_cases hnm : n = m
    · subst m
      rw [if_pos rfl, if_pos rfl, if_pos (show n < t.array.length from hm)]
      rfl
    · rw [if_neg hnm, if_neg (position_ne (by omega) (by omega) (by omega))]
  | none => rw [if_neg ((slot?_eq_none_iff hb).1 hk n hn)]

/-- A value is put behind the array region. -/
theorem get_append (hb : t.border + 1 < 0x8000000000000000) (k : Key) :
    get { t with array := t.array ++ [v] } k =
      if k = position (t.border + 1) then v else t.get k := by
  have hborder : border { t with array := t.array ++ [v] } = t.border + 1 := List.length_append
  have hb' : border { t with array := t.array ++ [v] } < 0x8000000000000000 := hborder ▸ hb
  rw [get, get]
  cases hk : t.slot? k with
  | some n =>
    obtain ⟨hn, rfl⟩ := (slot?_eq_some_iff (by omega)).1 hk
    rw [(slot?_eq_some_iff hb').2 ⟨by omega, rfl⟩, if_neg fun h => ?_]
    · exact congrArg (·.getD .nil) (List.getElem?_append_left hn)
    · exact position_ne (by omega) hb (by omega) h
  | none =>
    have hout := (slot?_eq_none_iff (by omega)).1 hk
    by_cases hnext : k = position (t.border + 1)
    · rw [if_pos hnext, (slot?_eq_some_iff hb').2 ⟨hborder ▸ Nat.lt_succ_self t.border, hnext⟩]
      simp [border]
    · rw [if_neg hnext, (slot?_eq_none_iff hb').2 fun n hn h => ?_]
      rcases Nat.lt_or_eq_of_le (Nat.le_of_lt_succ (hborder ▸ hn)) with hlt | rfl
      · exact hout n hlt h
      · exact hnext h

/-- The key behind the border moves into the array region. -/
theorem get_append_mapErase (hb : t.border + 1 < 0x8000000000000000) (k : Key) :
    get ⟨t.array ++ [v], mapErase t.map (position (t.border + 1))⟩ k =
      if k = position (t.border + 1) then v else t.get k := by
  refine (get_append (t := ⟨t.array, mapErase t.map (position (t.border + 1))⟩) hb k).trans ?_
  change (if k = position (t.border + 1) then v else _) = _
  split
  · rfl
  · rename_i hk
    rw [get_mapErase (slot?_next hb), if_neg hk]

theorem length_le_border_absorb (array : List HostValue) (map : List (Key × HostValue)) :
    array.length ≤ (absorb array map).border := by
  induction array, map using absorb.induct with
  | case1 array map v h ih =>
    rw [absorb, h]
    rw [List.length_append] at ih
    exact Nat.le_of_succ_le ih
  | case2 array map h =>
    rw [absorb, h]
    exact Nat.le_refl _

/-- Pulling keys out of the map region changes no value. -/
theorem get_absorb (hb : (absorb array map).border < 0x8000000000000000) (k : Key) :
    (absorb array map).get k = get ⟨array, map⟩ k := by
  induction array, map using absorb.induct with
  | case1 array map v h ih =>
    have hle := length_le_border_absorb (array ++ [v]) (mapErase map (position (array.length + 1)))
    rw [absorb, h] at hb ⊢
    rw [List.length_append, List.length_singleton] at hle
    have hroom : border ⟨array, map⟩ + 1 < 0x8000000000000000 := Nat.lt_of_le_of_lt hle hb
    refine (ih hb).trans ((get_append_mapErase (t := ⟨array, map⟩) hroom k).trans ?_)
    split
    · subst k
      rw [get_of_slot?_eq_none (slot?_next hroom)]
      exact (congrArg (·.getD .nil) h).symm
    · rfl
  | case2 array map h => rw [absorb, h]

/-- Cutting the array region off takes the value of one position. -/
theorem get_truncate (h : t.Proper) (hb : t.border < 0x8000000000000000) (hn : n < t.border)
    (k : Key) : (t.truncate n).get k = if k = position (n + 1) then .nil else t.get k := by
  have hborder : (t.truncate n).border = n := List.length_take_of_le (Nat.le_of_lt hn)
  have hlen : (t.array.drop (n + 1)).length = t.border - (n + 1) := List.length_drop
  have hroom : n + 2 + (t.array.drop (n + 1)).length ≤ 0x8000000000000000 := by omega
  obtain ⟨hspilled, hother⟩ := mapGet?_spill t.map hroom
  rw [hlen] at hspilled hother
  have hcut : (t.truncate n).slot? k = none → (t.truncate n).get k =
      (mapGet? (spill t.map (n + 2) (t.array.drop (n + 1))) k).getD .nil := get_of_slot?_eq_none
  rw [slot?_eq_none_iff (by omega), hborder] at hcut
  by_cases hk : ∃ m < t.border, k = position (m + 1)
  · obtain ⟨m, hm, rfl⟩ := hk
    rw [get_position hb hm]
    rcases Nat.lt_trichotomy m n with hlt | rfl | hlt
    · -- in front of the cut
      rw [get_position (by omega) (by omega), if_neg fun h => ?_]
      · rw [List.getD_eq_getElem?_getD, List.getD_eq_getElem?_getD, truncate,
          List.getElem?_take_of_lt hlt]
      · exact position_ne (by omega) (by omega) (by omega) h
    · -- at the cut
      have houtside : mapGet? t.map (position (m + 1)) = none :=
        mapGet?_eq_none_iff.2 (h.position_not_mem hb hm)
      rw [if_pos rfl, hcut fun n hn h => ?_, hother _ fun j hj h => ?_, houtside]
      · rfl
      · exact position_ne (by omega) (by omega) (by omega) h
      · exact position_ne (by omega) (by omega) (by omega) h
    · -- behind the cut
      have hmove : position (m + 1) = position (n + 2 + (m - (n + 1))) := by
        congr 1
        omega
      rw [if_neg fun h => ?_, hcut fun n hn h => ?_, hmove, hspilled _ (by omega),
        List.getElem?_drop, List.getD_eq_getElem?_getD]
      · congr 3
        omega
      · exact position_ne (by omega) (by omega) (by omega) h
      · exact position_ne (by omega) (by omega) (by omega) h
  · have hout : ∀ m < t.border, k ≠ position (m + 1) := fun m hm h => hk ⟨m, hm, h⟩
    rw [get_of_slot?_eq_none ((slot?_eq_none_iff hb).2 hout), if_neg (hout n hn),
      hcut fun m hm => hout m (by omega), hother k fun m hm h => ?_]
    refine hout (n + 1 + m) (by omega) (h.trans ?_)
    congr 1
    omega

/-- **A write changes the value of its own key only.** -/
theorem get_set (h : t.Proper) (hb : t.border < 0x8000000000000000)
    (hset : (t.set k v).border < 0x8000000000000000) (k' : Key) :
    (t.set k v).get k' = if k' = k then v else t.get k' := by
  rw [set] at hset ⊢
  cases hk : t.slot? k with
  | some n =>
    obtain ⟨hn, rfl⟩ := (slot?_eq_some_iff hb).1 hk
    dsimp only
    split
    · rename_i hnil
      rw [get_truncate h hb hn, eq_nil_of_isNil hnil]
    · exact get_setArray hb hn k'
  | none =>
    rw [hk] at hset
    dsimp only at hset ⊢
    split
    · rename_i hnil
      rw [get_mapErase hk, eq_nil_of_isNil hnil]
    · rename_i hnil
      rw [if_neg hnil] at hset
      split
      · rename_i hnext
        rw [if_pos hnext] at hset
        obtain rfl := eq_position_of_isNext hnext
        have hle := length_le_border_absorb (t.array ++ [v])
          (mapErase t.map (position (t.border + 1)))
        rw [List.length_append, List.length_singleton] at hle
        exact (get_absorb hset k').trans (get_append_mapErase (Nat.lt_of_le_of_lt hle hset) k')
      · exact get_mapInsert hk k'

/-! ### Going through a table -/

theorem toValue_injective : Function.Injective Key.toValue := by
  intro k k' h
  cases k <;> cases k' <;> cases h <;> rfl

theorem mapGet?_of_mem (hmap : (keys map).Nodup) (h : (k, v) ∈ map) : mapGet? map k = some v := by
  induction map with
  | nil => cases h
  | cons p map ih =>
    obtain ⟨hp, hrest⟩ := List.nodup_cons.1 hmap
    rw [mapGet?_cons]
    rcases List.mem_cons.1 h with rfl | h
    · exact if_pos rfl
    · have hk : k ∈ keys map := List.mem_map_of_mem h
      rw [if_neg fun he : p.1 = k => hp (he ▸ hk), ih hrest h]

/-- The keys of the map region are those that have a value and name no place. -/
theorem Proper.mem_keys_iff (h : t.Proper) :
    k ∈ keys t.map ↔ t.slot? k = none ∧ t.get k ≠ .nil := by
  constructor
  · intro hk
    have hslot := h.slot?_of_mem hk
    obtain ⟨v, hv⟩ := Option.isSome_iff_exists.1 (isSome_mapGet?_iff.2 hk)
    rw [get_of_slot?_eq_none hslot, hv]
    exact ⟨hslot, ne_nil_of_isNil (h.filled.not_nil _ (mem_of_mapGet? hv))⟩
  · rintro ⟨hslot, hne⟩
    rw [get_of_slot?_eq_none hslot] at hne
    by_contra hk
    rw [mapGet?_eq_none_iff.2 hk] at hne
    exact hne rfl

/-- The keys are listed region by region. -/
theorem map_fst_pairs (t : Table) : t.pairs.map Prod.fst =
    (List.range' 1 t.border).map (fun n => (position n).toValue) ++
      (keys t.map).map Key.toValue := by
  rw [pairs, List.map_append, List.map_map, List.map_map, keys, List.map_map]
  congr 1
  rw [border, ← List.zipIdx_map_snd 1 t.array, List.map_map]
  rfl

/-- **Every key with a value is listed with its value**, and nothing else is listed. -/
theorem mem_pairs_iff (h : t.Proper) (hb : t.border < 0x8000000000000000) {kv : HostValue} :
    (kv, v) ∈ t.pairs ↔ ∃ k, kv = k.toValue ∧ t.get k = v ∧ v ≠ .nil := by
  rw [pairs, List.mem_append, List.mem_map, List.mem_map]
  constructor
  · rintro (⟨⟨x, n⟩, hmem, he⟩ | ⟨⟨k, x⟩, hmem, he⟩)
    · obtain ⟨rfl, rfl⟩ := Prod.mk.inj he
      obtain ⟨h1, hx⟩ := List.mk_mem_zipIdx_iff_le_and_getElem?_sub.1 hmem
      obtain ⟨m, rfl⟩ := Nat.exists_eq_add_of_le' h1
      have hlt : m < t.border := (List.getElem?_eq_some_iff.1 hx).1
      refine ⟨_, rfl, ?_, ne_nil_of_isNil (h.not_nil x (List.mem_of_getElem? hx))⟩
      refine (get_position hb hlt).trans ?_
      rw [List.getD_eq_getElem?_getD]
      exact congrArg (·.getD HostValue.nil) hx
    · obtain ⟨rfl, rfl⟩ := Prod.mk.inj he
      refine ⟨k, rfl, ?_, ne_nil_of_isNil (h.filled.not_nil _ hmem)⟩
      rw [get_of_slot?_eq_none (h.slot?_of_mem (List.mem_map_of_mem hmem)),
        mapGet?_of_mem h.filled.nodup hmem]
      rfl
  · rintro ⟨k, rfl, rfl, hne⟩
    cases hslot : t.slot? k with
    | some n =>
      obtain ⟨hn, rfl⟩ := (slot?_eq_some_iff hb).1 hslot
      refine .inl ⟨(_, n + 1), List.mk_mem_zipIdx_iff_le_and_getElem?_sub.2
        ⟨Nat.le_add_left 1 n, List.getElem?_eq_getElem hn⟩, ?_⟩
      rw [get_position hb hn, List.getD_eq_getElem?_getD, List.getElem?_eq_getElem hn]
      rfl
    | none =>
      rw [get_of_slot?_eq_none hslot] at hne ⊢
      cases hv : mapGet? t.map k with
      | none =>
        rw [hv] at hne
        exact absurd rfl hne
      | some v => exact .inr ⟨(k, v), mem_of_mapGet? hv, rfl⟩

/-- **No key is listed twice.** -/
theorem nodup_pairs (h : t.Proper) (hb : t.border < 0x8000000000000000) :
    (t.pairs.map Prod.fst).Nodup := by
  rw [map_fst_pairs, ← Function.comp_def, ← List.map_map, ← List.map_append]
  refine List.Nodup.map toValue_injective (List.nodup_append.2 ⟨?_, h.filled.nodup, ?_⟩)
  · refine List.Nodup.map_on (fun n hn m hm he => ?_) List.nodup_range'
    rw [List.mem_range'_1] at hn hm
    exact position_inj (by omega) (by omega) he
  · rintro k hk _ hmem rfl
    obtain ⟨n, hn, rfl⟩ := List.mem_map.1 hk
    rw [List.mem_range'_1] at hn
    obtain ⟨m, rfl⟩ := Nat.exists_eq_add_of_le' hn.1
    exact h.position_not_mem hb (by omega) hmem

end Table
end CommandBridge
