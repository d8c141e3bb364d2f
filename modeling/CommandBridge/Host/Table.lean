/-
# Host tables

A table has two regions.  The array region holds the values of the keys
`1, …, N` without a hole, and `N` is the border.  The map region holds all other
keys with their values in the order in which they came in.  A write at `N + 1`
appends to the array and pulls the keys `N + 2, N + 3, …` out of the map as far
as they are there (`absorb`); taking a value out of the middle of the array moves
the values behind it to the end of the map (`spill`).  Writing nil takes a key
out.
-/

import CommandBridge.Host.Value

namespace CommandBridge

/-- A table of the host. -/
structure Table where
  array : List HostValue := []
  map : List (Key × HostValue) := []
deriving DecidableEq, Inhabited, Repr

namespace Table

/-- The empty table. -/
def empty : Table := {}

/-- The border of the array region. -/
def border (t : Table) : Nat := t.array.length

def isEmpty (t : Table) : Bool := t.array.isEmpty && t.map.isEmpty

/-- The key of a position in the array region, counted from one. -/
def position (n : Nat) : Key := .int (Int64.ofNat n)

/-- The place in the array region that a key names, counted from zero. -/
def slot? (t : Table) : Key → Option Nat
  | .int i => if 1 ≤ i.toInt ∧ i.toInt ≤ t.border then some (i.toInt.toNat - 1) else none
  | _ => none

/-- The value that the map region has for a key. -/
def mapGet? (map : List (Key × HostValue)) (k : Key) : Option HostValue :=
  (map.find? fun p => p.1 == k).map (·.2)

/-- Puts a value into the map region, in its old place or at the end. -/
def mapInsert (map : List (Key × HostValue)) (k : Key) (v : HostValue) : List (Key × HostValue) :=
  if (mapGet? map k).isSome then map.map fun p => if p.1 == k then (k, v) else p
  else map ++ [(k, v)]

/-- Takes a key out of the map region. -/
def mapErase (map : List (Key × HostValue)) (k : Key) : List (Key × HostValue) :=
  map.filter fun p => p.1 != k

theorem length_mapErase_lt {map : List (Key × HostValue)} {k : Key} {v : HostValue}
    (h : mapGet? map k = some v) : (mapErase map k).length < map.length := by
  obtain ⟨p, hp, -⟩ := Option.map_eq_some_iff.1 h
  have hk := List.find?_some hp
  exact List.length_filter_lt_length_iff_exists.2
    ⟨p, List.mem_of_find?_eq_some hp, by simpa using hk⟩

/-- The value of a key, nil if it has none. -/
def get (t : Table) (k : Key) : HostValue :=
  match t.slot? k with
  | some n => t.array.getD n .nil
  | none => (mapGet? t.map k).getD .nil

/-- The value of the key that a value stands for; nil for a value that is no
key. -/
def lookup (t : Table) (v : HostValue) : HostValue :=
  match Key.ofValue v with
  | .ok k => t.get k
  | .error _ => .nil

/-- The value of a name. -/
def field (t : Table) (name : String) : HostValue :=
  t.get (Key.ofText name)

/-- Pulls the keys behind the border out of the map into the array. -/
def absorb (array : List HostValue) (map : List (Key × HostValue)) : Table :=
  match _h : mapGet? map (position (array.length + 1)) with
  | some v => absorb (array ++ [v]) (mapErase map (position (array.length + 1)))
  | none => ⟨array, map⟩
termination_by map.length
decreasing_by exact length_mapErase_lt _h

/-- Puts values into the map region under consecutive positions. -/
def spill (map : List (Key × HostValue)) (n : Nat) : List HostValue → List (Key × HostValue)
  | [] => map
  | v :: r => spill (mapInsert map (position n) v) (n + 1) r

/-- Cuts the array region off before a place; what was behind that place goes
to the map. -/
def truncate (t : Table) (n : Nat) : Table :=
  ⟨t.array.take n, spill t.map (n + 2) (t.array.drop (n + 1))⟩

/-- Whether a key is the first one behind the border. -/
def isNext (t : Table) (k : Key) : Bool :=
  match k with
  | .int i => i.toInt == t.border + 1
  | _ => false

/-- Writes a value at a key; nil takes the key out. -/
def set (t : Table) (k : Key) (v : HostValue) : Table :=
  match t.slot? k with
  | some n => if v.isNil then t.truncate n else { t with array := t.array.set n v }
  | none =>
    if v.isNil then { t with map := mapErase t.map k }
    else if t.isNext k then absorb (t.array ++ [v]) (mapErase t.map k)
    else { t with map := mapInsert t.map k v }

/-- Writes at the key that a value stands for. -/
def insert (t : Table) (k v : HostValue) : Except KeyError Table :=
  (Key.ofValue k).map fun k => t.set k v

/-- Writes at a name. -/
def setField (t : Table) (name : String) (v : HostValue) : Table :=
  t.set (Key.ofText name) v

/-- Writes at the key behind the border.  That key is in no slot, so only the last
branches of `set` are left; nil takes away what the map has there. -/
def push (t : Table) (v : HostValue) : Table :=
  let map := mapErase t.map (position (t.border + 1))
  if v.isNil then { t with map } else absorb (t.array ++ [v]) map

/-- The table of some values in order, without the nils. -/
def ofValues (vs : List HostValue) : Table :=
  vs.foldl push empty

/-- All keys with their values: the array region, then the map region. -/
def pairs (t : Table) : List (HostValue × HostValue) :=
  (t.array.zipIdx 1).map (fun p => ((position p.2).toValue, p.1)) ++
    t.map.map fun p => (p.1.toValue, p.2)

end Table
end CommandBridge
