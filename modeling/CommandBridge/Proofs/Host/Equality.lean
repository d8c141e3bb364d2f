/-
# Equal values and table keys

Two values name the same entry of every table if they stand for the same key
(`IndexedTable.lookup_set_iff`).  Values that do so are equal, and equal values do so,
with one exception: an integer is compared with a number by converting it, so it equals
the number that it is rounded to, whereas as a key a number only counts as the integer
that it is (`Rounds`).  Integers of 53 bits are not rounded.

So equality is not transitive among all keys (`rounded_equal`), but it is as long as no
integer is rounded (`same_iff_key`).
-/

import CommandBridge.Proofs.Host.Ordering
import CommandBridge.Proofs.Number.Integral

namespace CommandBridge

/-! ### Numbers of equal value -/

namespace Binary64

variable {x y : Binary64} {i : Int64}

/-- Numbers are equal as bits, or they are the two zeros. -/
theorem sameValue_iff (hx : x.isNaN = false) (hy : y.isNaN = false) :
    x.sameValue y = true ↔ x = y ∨ x.toInt? = some 0 ∧ y.toInt? = some 0 := by
  rw [sameValue, hx, hy, toInt?_eq_zero_iff, toInt?_eq_zero_iff]
  simp only [Bool.not_false, Bool.true_and, Bool.or_eq_true, Bool.and_eq_true, beq_iff_eq]
  tauto

/-- Only zero converts to a zero. -/
theorem eq_zero_of_toInt?_ofInt (h : (ofInt i.toInt).toInt? = some 0) : i = 0 := by
  by_contra hi
  have hi₀ : i.toInt ≠ 0 := fun h => hi (Int64.toInt_inj.1 h)
  have hi₁ := i.le_toInt
  have hi₂ := i.toInt_lt
  obtain ⟨e, m, j, hb, he, hl, hm, hj, hj₀, -⟩ :=
    exists_magnitudeBits (Int.natAbs_pos.2 hi₀) (by omega)
  rw [ofInt, ofRatio, hb, toInt?_signed _ he hl hm hj, Option.some.injEq] at h
  split at h <;> omega

/-- No integer converts to a NaN. -/
theorem isNaN_ofInt (i : Int64) : (ofInt i.toInt).isNaN = false := by
  rcases ofInt_eq_cases (i := i) rfl with h | ⟨j, hj, -⟩
  · rw [h]
    decide
  · exact IndexedTable.isNaN_of_toInt? hj

/-- An integer is rounded to a number, which is not that integer. -/
def Rounds (i : Int64) (x : Binary64) : Prop :=
  ofInt i.toInt = x ∧ x.toInt? ≠ some i.toInt

/-- An integer equals the number that it is, and the number that it is rounded to. -/
theorem sameValue_ofInt_iff (hx : x.isNaN = false) :
    (ofInt i.toInt).sameValue x = true ↔ x.toInt? = some i.toInt ∨ Rounds i x := by
  rw [sameValue_iff (isNaN_ofInt i) hx]
  constructor
  · rintro (h | ⟨hi, hx⟩)
    · exact (em _).imp_right fun hne => ⟨h, hne⟩
    · obtain rfl := eq_zero_of_toInt?_ofInt hi
      exact .inl hx
  · rintro (h | h)
    · by_cases hi : i = 0
      · subst hi
        exact .inr ⟨ofInt_zero.1 ▸ ofInt_zero.2, h⟩
      · exact .inl (ofInt_of_toInt? h hi)
    · exact .inl h.1

/-- Integers of 53 bits are not rounded. -/
theorem not_rounds (hi : i.toInt.natAbs ≤ 2 ^ 53) : ¬Rounds i x := by
  rintro ⟨rfl, hne⟩
  exact hne (toInt?_ofInt hi)

end Binary64

/-! ### Values of equal keys -/

namespace HostValue

variable {a b c : HostValue} {x y : Binary64} {i : Int64}

/-- The value may be a table key. -/
def IsKey : HostValue → Prop
  | .nil => False
  | .number x => x.isNaN = false
  | _ => True

/-- One of the values is an integer and the other the number that it is rounded to. -/
def Rounded : HostValue → HostValue → Prop
  | .int i, .number x => x.Rounds i
  | .number x, .int i => x.Rounds i
  | _, _ => False

theorem IsKey.exists_ofValue (h : a.IsKey) : ∃ k, Key.ofValue a = .ok k := by
  cases hk : Key.ofValue a with
  | ok k => exact ⟨k, rfl⟩
  | error e =>
    rcases IndexedTable.exists_ofValue_error_iff.1 ⟨e, hk⟩ with rfl | ⟨x, rfl, hx⟩
    · exact h.elim
    · exact absurd hx (ne_true_of_eq_false h)

theorem toInteger?_number : (number x).toInteger? = some i ↔ x.toInt? = some i.toInt := by
  rw [toInteger?, Option.bind_eq_some_iff]
  constructor
  · rintro ⟨z, hz, hi⟩
    rw [hz, Integer.word?_eq_some_iff.1 hi]
  · exact fun h => ⟨_, h, Integer.word?_toInt i⟩

/-- A number stands for an integer key if it is that integer. -/
theorem ofValue_number_eq_int (hx : x.isNaN = false) :
    Key.ofValue (.number x) = .ok (.int i) ↔ x.toInt? = some i.toInt := by
  rw [← toInteger?_number, Key.ofValue, hx, if_neg Bool.false_ne_true]
  cases (number x).toInteger? with
  | none => simp
  | some j => simp

/-- Numbers stand for the same key if they are equal. -/
theorem ofValue_number_eq_number (hx : x.isNaN = false) (hy : y.isNaN = false) :
    Key.ofValue (.number x) = Key.ofValue (.number y) ↔ x.sameValue y = true := by
  rw [Binary64.sameValue_iff hx hy]
  constructor
  · intro h
    cases hk : (number x).toInteger? with
    | some i =>
      have hxi := toInteger?_number.1 hk
      have hyi := (ofValue_number_eq_int hy).1 (h.symm.trans ((ofValue_number_eq_int hx).2 hxi))
      by_cases hi : i = 0
      · subst hi
        exact .inr ⟨hxi, hyi⟩
      · exact .inl ((Binary64.ofInt_of_toInt? hxi hi).symm.trans (Binary64.ofInt_of_toInt? hyi hi))
    | none =>
      rw [Key.ofValue, Key.ofValue, hx, hy, if_neg Bool.false_ne_true,
        if_neg Bool.false_ne_true, hk] at h
      cases hl : (number y).toInteger? with
      | some j => simp [hl] at h
      | none => exact .inl (by simpa [hl] using h)
  · rintro (rfl | ⟨hx₀, hy₀⟩)
    · rfl
    · exact ((ofValue_number_eq_int (i := 0) hx).2 hx₀).trans
        ((ofValue_number_eq_int (i := 0) hy).2 hy₀).symm

theorem isNumeric_of_ofValue {k : Key} (h : Key.ofValue a = .ok k) : k.isNumeric = a.isNumber := by
  cases a with
  | nil => cases h
  | number x =>
    unfold Key.ofValue at h
    dsimp only at h
    split at h
    · cases h
    · split at h <;> cases h <;> rfl
  | _ =>
    cases h
    rfl

/-- A number and a value of another kind stand for different keys. -/
theorem ofValue_ne (ha : a.IsKey) (h : a.isNumber ≠ b.isNumber) :
    Key.ofValue a ≠ Key.ofValue b := by
  intro hab
  obtain ⟨k, hk⟩ := ha.exists_ofValue
  exact h ((isNumeric_of_ofValue hk).symm.trans (isNumeric_of_ofValue (hab ▸ hk)))

/-- **Values are equal if they stand for the same key, or if one is an integer that is rounded
to the other.** -/
theorem same_iff (ha : a.IsKey) (hb : b.IsKey) :
    a.same b = true ↔ Key.ofValue a = Key.ofValue b ∨ a.Rounded b := by
  cases a with
  | nil => exact ha.elim
  | number x =>
    cases b with
    | nil => exact hb.elim
    | number y => exact (ofValue_number_eq_number ha hb).symm.trans (or_iff_left id).symm
    | int i =>
      exact (Binary64.sameValue_ofInt_iff ha).trans (or_congr_left (ofValue_number_eq_int ha).symm)
    | _ =>
      exact iff_of_false Bool.false_ne_true
        (not_or.2 ⟨ofValue_ne ha Bool.false_ne_true.symm, id⟩)
  | int i =>
    cases b with
    | nil => exact hb.elim
    | number x =>
      exact (Binary64.sameValue_ofInt_iff hb).trans
        (or_congr_left ((ofValue_number_eq_int hb).symm.trans eq_comm))
    | _ => simp [same, Key.ofValue, Rounded]
  | _ =>
    cases b with
    | nil => exact hb.elim
    | number x =>
      exact iff_of_false Bool.false_ne_true (not_or.2 ⟨ofValue_ne ha Bool.false_ne_true, id⟩)
    | _ => simp [same, Key.ofValue, Rounded]

theorem rounded_comm : a.Rounded b ↔ b.Rounded a := by
  cases a <;> cases b <;> exact Iff.rfl

theorem same_comm (ha : a.IsKey) (hb : b.IsKey) : a.same b = b.same a :=
  Bool.eq_iff_iff.2 ((same_iff ha hb).trans
    ((or_congr eq_comm rounded_comm).trans (same_iff hb ha).symm))

/-- What an integer is rounded to stands for another key. -/
theorem ofValue_ne_of_rounded (ha : a.IsKey) (hb : b.IsKey) (h : a.Rounded b) :
    Key.ofValue a ≠ Key.ofValue b := by
  cases a with
  | int i =>
    cases b with
    | number x => exact fun hk => h.2 ((ofValue_number_eq_int hb).1 hk.symm)
    | _ => exact h.elim
  | number x =>
    cases b with
    | int i => exact fun hk => h.2 ((ofValue_number_eq_int ha).1 hk)
    | _ => exact h.elim
  | _ => exact h.elim

/-- An integer of 53 bits is not rounded to anything. -/
theorem not_rounded (h : ∀ i, a = .int i ∨ b = .int i → i.toInt.natAbs ≤ 2 ^ 53) :
    ¬a.Rounded b := by
  intro hr
  cases a with
  | int i =>
    cases b with
    | number x => exact Binary64.not_rounds (h i (.inl rfl)) hr
    | _ => exact hr
  | number x =>
    cases b with
    | int i => exact Binary64.not_rounds (h i (.inr rfl)) hr
    | _ => exact hr
  | _ => exact hr

end HostValue

/-! ### Reading where another value was written -/

namespace IndexedTable

open HostValue

theorem get_empty (k : Key) : empty.get k = .nil := by
  have hroom : Roomy [] := roomy_of_length (by simp)
  have hr := (represents_of_writes hroom).1
  refine (hr.get k).trans (Table.get_of_slot?_eq_none ?_)
  exact (Table.slot?_eq_none_iff (by decide)).2 fun n hn => absurd hn n.not_lt_zero

/-- What is written at a value is read at all values that stand for its key. -/
theorem exists_set {writes : List TableWrite} (hroom : ∀ w, Roomy (writes ++ [w]))
    {a : HostValue} {k : Key} (hk : Key.ofValue a = .ok k) (v : HostValue) :
    ∃ t, (writes.foldl write empty).set a v = .ok t ∧ ∀ b, t.lookup b =
      if Key.ofValue b = .ok k then v else (writes.foldl write empty).lookup b := by
  refine ⟨(writes.foldl write empty).setKey k v, by rw [set, hk]; rfl, fun b => ?_⟩
  have hbefore : Roomy writes := fun before hp =>
    hroom (.push .nil) before (hp.trans (List.prefix_append _ _))
  obtain ⟨hr, hp⟩ := represents_of_writes hbefore
  have hafter := hroom (.setKey k v) _ List.prefix_rfl
  rw [List.foldl_append] at hafter
  have hlen : (writes.foldl write empty).len = (writes.foldl Table.write .empty).border :=
    congrArg Table.border hr.eq
  have hb := hbefore writes List.prefix_rfl
  exact lookup_setKey hr hp (by omega) (Nat.lt_of_succ_lt hafter) b

/-- In a new table all else is nil. -/
theorem exists_set_empty {a b : HostValue} (ha : a.IsKey) (hb : b.IsKey)
    (h : Key.ofValue a ≠ Key.ofValue b) (v : HostValue) :
    ∃ t, empty.set a v = .ok t ∧ t.lookup b = .nil := by
  obtain ⟨k, hk⟩ := ha.exists_ofValue
  obtain ⟨l, hl⟩ := hb.exists_ofValue
  have hroom : ∀ w, Roomy ([] ++ [w]) := fun w => roomy_of_length (by simp)
  obtain ⟨t, ht, hread⟩ := exists_set hroom hk v
  refine ⟨t, ht, ?_⟩
  rw [hread, if_neg fun hb => h (hk.trans hb.symm)]
  change lookup empty b = _
  rw [lookup, hl]
  exact get_empty l

/-- **What is written at a value is read at the values that stand for the same key**, and at no
other. -/
theorem lookup_set_iff {a b : HostValue} (ha : a.IsKey) (hb : b.IsKey) :
    Key.ofValue a = Key.ofValue b ↔
      ∀ writes : List TableWrite, (∀ w, Roomy (writes ++ [w])) → ∀ v,
        ∃ t, (writes.foldl write empty).set a v = .ok t ∧ t.lookup b = v := by
  constructor
  · intro hab writes hroom v
    obtain ⟨k, hk⟩ := ha.exists_ofValue
    obtain ⟨t, ht, hread⟩ := exists_set hroom hk v
    exact ⟨t, ht, (hread b).trans (if_pos (hab.symm.trans hk))⟩
  · intro hread
    by_contra hab
    obtain ⟨t, ht, hnil⟩ := exists_set_empty ha hb hab (.bool true)
    obtain ⟨t', ht', hv⟩ := hread [] (fun w => roomy_of_length (by simp)) (.bool true)
    obtain rfl := Except.ok.inj (ht.symm.trans ht')
    exact nomatch hnil.symm.trans hv

end IndexedTable

namespace HostValue

/-- **Equal values are read at each other, unless an integer is rounded.**  Take two values that
are neither nil nor a NaN.  What is written to a table at one of them is read at the other
exactly if they stand for the same key, and then they are equal.  The other way round, equal
values stand for the same key unless one of them is an integer that is rounded to the other,
which no integer of 53 bits is.  So equality is symmetric, and it is transitive where nothing
is rounded. -/
theorem same_iff_key {a b : HostValue} (ha : a.IsKey) (hb : b.IsKey) :
    (Key.ofValue a = Key.ofValue b ↔
      ∀ writes : List TableWrite, (∀ w, IndexedTable.Roomy (writes ++ [w])) → ∀ v,
        ∃ t, (writes.foldl IndexedTable.write .empty).set a v = .ok t ∧ t.lookup b = v) ∧
    (a.same b = true ↔ Key.ofValue a = Key.ofValue b ∨ a.Rounded b) ∧
    (a.Rounded b → Key.ofValue a ≠ Key.ofValue b) ∧
    ((∀ i, a = .int i ∨ b = .int i → i.toInt.natAbs ≤ 2 ^ 53) → ¬a.Rounded b) ∧
    a.same b = b.same a ∧
    ∀ c : HostValue, c.IsKey → ¬a.Rounded b → ¬b.Rounded c →
      a.same b = true → b.same c = true → a.same c = true := by
  refine ⟨IndexedTable.lookup_set_iff ha hb, same_iff ha hb, ofValue_ne_of_rounded ha hb,
    not_rounded, same_comm ha hb, fun c hc hab hbc hsame hsame' => ?_⟩
  have hkeys := ((same_iff ha hb).1 hsame).resolve_right hab
  have hkeys' := ((same_iff hb hc).1 hsame').resolve_right hbc
  exact (same_iff ha hc).2 (.inl (hkeys.trans hkeys'))

/-- The integer zero and the negative zero, two ways to name one entry. -/
theorem same_iff_key_zero :
    (int 0).IsKey ∧ (number ⟨0x8000000000000000⟩).IsKey ∧
      (int 0).same (number ⟨0x8000000000000000⟩) = true ∧
      ∀ v, ∃ t, IndexedTable.empty.set (.int 0) v = .ok t ∧
        t.lookup (.number ⟨0x8000000000000000⟩) = v := by
  have hkey : (number ⟨0x8000000000000000⟩).IsKey := by
    change Binary64.isNaN _ = false
    decide
  have hsame := same_iff_key (a := .int 0) trivial hkey
  have hkeys : Key.ofValue (.int 0) = Key.ofValue (.number ⟨0x8000000000000000⟩) :=
    ((ofValue_number_eq_int hkey).2 (by decide +kernel)).symm
  refine ⟨trivial, hkey, hsame.2.1.2 (.inl hkeys), ?_⟩
  exact hsame.1.1 hkeys [] fun w => IndexedTable.roomy_of_length (by simp)

/-- `2 ^ 53 + 1` equals the number `2 ^ 53`, which equals the integer `2 ^ 53`; but that is
another integer, and what is written at the first is not read at the second. -/
theorem rounded_equal :
    (int 0x20000000000001).same (number ⟨0x4340000000000000⟩) = true ∧
      (number ⟨0x4340000000000000⟩).same (int 0x20000000000000) = true ∧
      (int 0x20000000000001).same (int 0x20000000000000) = false ∧
      Key.ofValue (int 0x20000000000001) ≠ Key.ofValue (number ⟨0x4340000000000000⟩) ∧
      ∃ t, IndexedTable.empty.set (int 0x20000000000001) (.bool true) = .ok t ∧
        t.lookup (number ⟨0x4340000000000000⟩) = .nil := by
  have hkey : (number ⟨0x4340000000000000⟩).IsKey := by
    change Binary64.isNaN _ = false
    decide
  have hne : Key.ofValue (int 0x20000000000001) ≠ Key.ofValue (number ⟨0x4340000000000000⟩) := by
    decide +kernel
  exact ⟨by decide +kernel, by decide +kernel, by decide, hne,
    IndexedTable.exists_set_empty (a := int _) trivial hkey hne _⟩

end HostValue
end CommandBridge
