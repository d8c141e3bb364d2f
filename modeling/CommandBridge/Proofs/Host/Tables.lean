/-
# Tables that are built by pushing

A table that is built from values holds them in its array region, and nothing
else, as long as no nil is among them: a nil is not pushed (`ofValues_eq`).
-/

import CommandBridge.Host.Table
import Mathlib.Tactic.SplitIfs

namespace CommandBridge
namespace Table

/-- Pushing is writing at the key behind the border, while that key is a number of
64 bits. -/
theorem push_eq_set {t : Table} (h : t.border + 1 < 0x8000000000000000) (v : HostValue) :
    t.push v = t.set (position (t.border + 1)) v := by
  have hs : t.slot? (position (t.border + 1)) = none := by
    simp only [slot?, position]
    rw [Int64.toInt_ofNat_of_lt h, if_neg (by omega)]
  have hn : t.isNext (position (t.border + 1)) = true := by
    simp only [isNext, position]
    rw [Int64.toInt_ofNat_of_lt h]
    exact beq_self_eq_true _
  rw [push, set, hs]
  dsimp only
  rw [if_pos hn]

theorem push_array {t : Table} {v : HostValue} (hm : t.map = []) (hv : v.isNil = false) :
    t.push v = ⟨t.array ++ [v], []⟩ := by
  rw [push, hm, if_neg (by rw [hv]; exact Bool.false_ne_true), absorb]
  rfl

/-- **The array region holds the values that a table is built from.** -/
theorem ofValues_eq {vs : List HostValue} (h : ∀ v ∈ vs, v.isNil = false) :
    ofValues vs = ⟨vs, []⟩ := by
  have hpush : ∀ (vs array : List HostValue), (∀ v ∈ vs, v.isNil = false) →
      vs.foldl push ⟨array, []⟩ = ⟨array ++ vs, []⟩ := by
    intro vs
    induction vs with
    | nil => simp
    | cons v r ih =>
      intro array hv
      rw [List.foldl_cons, push_array rfl (hv v List.mem_cons_self),
        ih _ fun w hw => hv w (List.mem_cons_of_mem v hw), List.append_assoc]
      rfl
  exact hpush vs [] h

end Table
end CommandBridge
