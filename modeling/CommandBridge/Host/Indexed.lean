/-
# Host tables with an index

A table finds an entry of its map region through an index, a hash map from the keys
to their slots.  A slot is a place in the map region, so taking an entry out moves
the slots of all later entries down by one (`mapRemove`).  Here a table is kept that
way, array, map and index beside each other; `toTable` leaves the index out.
-/

import CommandBridge.Host.Table
import Std.Data.ExtHashMap

namespace CommandBridge

deriving instance Hashable for Binary64

deriving instance Hashable for Key

instance : EquivBEq Key := inferInstance

instance : LawfulHashable Key := inferInstance

/-- A table with the index of its map region. -/
structure IndexedTable where
  array : List HostValue := []
  map : List (Key × HostValue) := []
  index : Std.ExtHashMap Key Nat := ∅

namespace IndexedTable

/-- The empty table. -/
def empty : IndexedTable := {}

/-- The table without its index. -/
def toTable (t : IndexedTable) : Table :=
  ⟨t.array, t.map⟩

/-- The border of the array region. -/
def len (t : IndexedTable) : Nat :=
  t.array.length

/-- The value of a key, nil if it has none. -/
def get (t : IndexedTable) (k : Key) : HostValue :=
  match t.toTable.slot? k with
  | some n => t.array.getD n .nil
  | none => (((t.index[k]?).bind fun slot => t.map[slot]?).map (·.2)).getD .nil

/-- The value of the key that a value stands for; nil for a value that is no key. -/
def lookup (t : IndexedTable) (v : HostValue) : HostValue :=
  match Key.ofValue v with
  | .ok k => t.get k
  | .error _ => .nil

/-- Puts a value into the map region, into the slot of its key or into a new one. -/
def mapInsert (t : IndexedTable) (k : Key) (v : HostValue) : IndexedTable :=
  match t.index[k]? with
  | some slot => { t with map := t.map.modify slot fun p => (p.1, v) }
  | none => { t with map := t.map ++ [(k, v)], index := t.index.insert k t.map.length }

/-- Moves the slots of some keys down by one. -/
def shiftSlots (index : Std.ExtHashMap Key Nat) (entries : List (Key × HostValue)) :
    Std.ExtHashMap Key Nat :=
  entries.foldl (fun index p => index.modify p.1 (· - 1)) index

/-- Takes a key out of the map region, with the value that it had. -/
def mapRemove (t : IndexedTable) (k : Key) : Option HostValue × IndexedTable :=
  match t.index[k]? with
  | none => (none, t)
  | some slot =>
    ((t.map[slot]?).map (·.2),
      { t with
        map := t.map.eraseIdx slot
        index := shiftSlots (t.index.erase k) (t.map.drop (slot + 1)) })

theorem length_mapRemove_lt {t : IndexedTable} {k : Key} {v : HostValue}
    (h : (t.mapRemove k).1 = some v) : (t.mapRemove k).2.map.length < t.map.length := by
  rw [mapRemove] at h ⊢
  cases hk : t.index[k]? with
  | none =>
    rw [hk] at h
    cases h
  | some slot =>
    rw [hk] at h
    obtain ⟨p, hp, -⟩ := Option.map_eq_some_iff.1 h
    have hlt := (List.getElem?_eq_some_iff.1 hp).1
    simp only [List.length_eraseIdx, if_pos hlt]
    omega

/-- Puts a value at the end of the array region. -/
def append (t : IndexedTable) (v : HostValue) : IndexedTable :=
  { t with array := t.array ++ [v] }

/-- Pulls the keys behind the border out of the map into the array. -/
def migrateBorder (t : IndexedTable) : IndexedTable :=
  match _h : (t.mapRemove (Table.position (t.len + 1))).1 with
  | some v => migrateBorder ((t.mapRemove (Table.position (t.len + 1))).2.append v)
  | none => (t.mapRemove (Table.position (t.len + 1))).2
termination_by t.map.length
decreasing_by exact length_mapRemove_lt _h

/-- Puts values into the map region under consecutive positions. -/
def spill (t : IndexedTable) (n : Nat) : List HostValue → IndexedTable
  | [] => t
  | v :: r => spill (t.mapInsert (Table.position n) v) (n + 1) r

/-- Cuts the array region off before a place; what was behind that place goes to the
map. -/
def truncate (t : IndexedTable) (n : Nat) : IndexedTable :=
  spill { t with array := t.array.take n } (n + 2) (t.array.drop (n + 1))

/-- Writes a value at a key; nil takes the key out. -/
def setKey (t : IndexedTable) (k : Key) (v : HostValue) : IndexedTable :=
  match t.toTable.slot? k with
  | some n => if v.isNil then t.truncate n else { t with array := t.array.set n v }
  | none =>
    if v.isNil then (t.mapRemove k).2
    else if t.toTable.isNext k then migrateBorder ((t.mapRemove k).2.append v)
    else t.mapInsert k v

/-- Writes at the key that a value stands for. -/
def set (t : IndexedTable) (k v : HostValue) : Except KeyError IndexedTable :=
  (Key.ofValue k).map fun k => t.setKey k v

/-- Writes at a name. -/
def setField (t : IndexedTable) (name : String) (v : HostValue) : IndexedTable :=
  t.setKey (Key.ofText name) v

/-- Writes at the key behind the border. -/
def push (t : IndexedTable) (v : HostValue) : IndexedTable :=
  t.setKey (Table.position (t.len + 1)) v

/-- The table of some values in order, without the nils. -/
def ofValues (vs : List HostValue) : IndexedTable :=
  vs.foldl push empty

/-- All keys with their values: the array region, then the map region.  The index takes no
part in it. -/
def pairs (t : IndexedTable) : List (HostValue × HostValue) :=
  t.toTable.pairs

end IndexedTable

/-- A write to a table. -/
inductive TableWrite where
  | set (key value : HostValue)
  | setField (name : String) (value : HostValue)
  | push (value : HostValue)
  | setKey (key : Key) (value : HostValue)
deriving DecidableEq, Inhabited, Repr

/-- A table after a write.  A value that is no key leaves it as it was. -/
def Table.write (t : Table) : TableWrite → Table
  | .set k v => (t.insert k v).toOption.getD t
  | .setField name v => t.setField name v
  | .push v => t.push v
  | .setKey k v => t.set k v

/-- A table after a write.  A value that is no key leaves it as it was. -/
def IndexedTable.write (t : IndexedTable) : TableWrite → IndexedTable
  | .set k v => (t.set k v).toOption.getD t
  | .setField name v => t.setField name v
  | .push v => t.push v
  | .setKey k v => t.setKey k v

end CommandBridge
