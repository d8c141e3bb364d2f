/-
# The tables on the way

While a table is being converted its number is on the way from the outermost
table to the value at hand.  A number enters once; leaving takes it off again,
so the elements beside it find the way as it was (`leave_of_enter?`).
-/

namespace CommandBridge

/-- The numbers of the tables that enclose a place, innermost first. -/
structure Visited where
  ids : List Nat := []
deriving DecidableEq, Repr, Inhabited

namespace Visited

def contains (s : Visited) (id : Nat) : Bool :=
  s.ids.contains id

/-- How many numbers are on the way. -/
def depth (s : Visited) : Nat :=
  s.ids.length

/-- Puts a number on the way, unless it is there already. -/
def enter? (s : Visited) (id : Nat) : Option Visited :=
  if s.contains id then none else some ⟨id :: s.ids⟩

/-- Takes a number off the way. -/
def leave (s : Visited) (id : Nat) : Visited :=
  ⟨s.ids.erase id⟩

theorem enter?_eq_none_iff {s : Visited} {id : Nat} :
    s.enter? id = none ↔ s.contains id = true := by
  rw [enter?]
  split <;> simp_all

theorem contains_of_enter? {s t : Visited} {id : Nat} (h : s.enter? id = some t) :
    s.contains id = false ∧ t.ids = id :: s.ids := by
  rw [enter?] at h
  split at h
  · cases h
  · rename_i hc
    obtain rfl := Option.some.inj h
    exact ⟨by simpa using hc, rfl⟩

/-- Leaving what was just entered gives the way as it was. -/
theorem leave_of_enter? {s t : Visited} {id : Nat} (h : s.enter? id = some t) : t.leave id = s := by
  rw [leave, (contains_of_enter? h).2, List.erase_cons_head]

end Visited
end CommandBridge
