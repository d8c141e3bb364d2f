/-
# Integers read back from their text

The text of an integer is its decimal digits with a minus sign in front if it is
negative.  As a literal it gives the integer back (`literal_toString`), with one
exception: the digits are read apart from the sign, and those of the least word
name a number that is no word.
-/

import CommandBridge.Number.Integer
import CommandBridge.Text.Blank

namespace CommandBridge

theorem Text.trimChars_eq_self {cs : List Char} (h : ∀ c ∈ cs, isSpace c = false) :
    trimChars cs = cs := by
  have hdrop : ∀ ds : List Char, (∀ c ∈ ds, isSpace c = false) → ds.dropWhile isSpace = ds := by
    intro ds hds
    cases ds with
    | nil => rfl
    | cons d r => rw [List.dropWhile_cons, hds d List.mem_cons_self, if_neg Bool.false_ne_true]
  rw [trimChars, hdrop cs h, hdrop cs.reverse fun c hc => h c (List.mem_reverse.1 hc),
    List.reverse_reverse]

namespace Integer

/-! ### Decimal digits -/

theorem isDigit_bounds {c : Char} (h : c.isDigit = true) : 48 ≤ c.toNat ∧ c.toNat ≤ 57 :=
  Char.isDigit_iff_toNat.1 h

theorem digit?_of_isDigit {c : Char} (h : c.isDigit = true) :
    digit? 10 c = some (c.toNat - '0'.toNat) := by
  have hc := isDigit_bounds h
  have h0 : '0'.toNat = 48 := rfl
  unfold digit?
  dsimp only
  rw [if_pos hc, if_pos (by omega), h0]

theorem digitsFrom?_of_isDigit {cs : List Char} (h : ∀ c ∈ cs, c.isDigit = true) (acc : Nat) :
    digitsFrom? 10 acc cs = some (Nat.ofDigitChars 10 cs acc) := by
  induction cs generalizing acc with
  | nil => rfl
  | cons c r ih =>
    rw [digitsFrom?, digit?_of_isDigit (h c List.mem_cons_self), Option.bind_some,
      ih fun d hd => h d (List.mem_cons_of_mem c hd), Nat.ofDigitChars_cons]

theorem isDigit_of_mem_toDigits {n : Nat} {c : Char} (h : c ∈ Nat.toDigits 10 n) :
    c.isDigit = true :=
  Nat.isDigit_of_mem_toDigits (by decide) (by decide) h

/-- The digits of a natural number name it. -/
theorem natural?_toDigits (n : Nat) : natural? 10 (Nat.toDigits 10 n) = some n := by
  have hread := digitsFrom?_of_isDigit (fun _ => isDigit_of_mem_toDigits (n := n)) 0
  rw [Nat.ofDigitChars_ten_toDigits] at hread
  cases hcs : Nat.toDigits 10 n with
  | nil => exact absurd hcs Nat.toDigits_ne_nil
  | cons c r => rw [natural?, ← hcs, hread]

/-- Decimal digits carry no mark of another base. -/
theorem magnitude?_toDigits (n : Nat) : magnitude? (Nat.toDigits 10 n) = word? n := by
  have hdigit : ∀ c ∈ Nat.toDigits 10 n, c.isDigit = true := fun _ => isDigit_of_mem_toDigits
  have hnat := natural?_toDigits n
  unfold magnitude?
  split
  case h_1 r hcs | h_2 r hcs =>
    rw [hcs] at hdigit
    exact absurd (hdigit _ (List.mem_cons_of_mem _ List.mem_cons_self)) (by decide)
  case h_3 => rw [hnat, Option.bind_some]

/-- Decimal digits carry no sign. -/
theorem literal_toDigits (n : Nat) : literal (Nat.toDigits 10 n) = accept (word? n) := by
  have hdigit : ∀ c ∈ Nat.toDigits 10 n, c.isDigit = true := fun _ => isDigit_of_mem_toDigits
  rw [← magnitude?_toDigits]
  unfold literal
  split
  case h_1 r hcs | h_2 r hcs =>
    rw [hcs] at hdigit
    exact absurd (hdigit _ List.mem_cons_self) (by decide)
  case h_3 => rfl

/-! ### Words -/

theorem toList_toString (z : Int) : (toString z).toList =
    if 0 ≤ z then Nat.toDigits 10 z.toNat else '-' :: Nat.toDigits 10 (-z).toNat := by
  rw [Int.toString_eq_repr, Int.repr_eq_if]
  split
  · exact Nat.toList_repr
  · rw [String.toList_append, Nat.toList_repr]
    rfl

/-- There is no white space in the text of an integer. -/
theorem trimChars_toString (z : Int) :
    Text.trimChars (toString z).toList = (toString z).toList := by
  have hdigit : ∀ n, ∀ c ∈ Nat.toDigits 10 n, Text.isSpace c = false := by
    intro n c hc
    have hb := isDigit_bounds (isDigit_of_mem_toDigits hc)
    simp only [Text.isSpace, Bool.or_eq_false_iff, Bool.and_eq_false_iff, beq_eq_false_iff_ne,
      decide_eq_false_iff_not]
    omega
  refine Text.trimChars_eq_self fun c hc => ?_
  rw [toList_toString] at hc
  split at hc
  · exact hdigit _ c hc
  · rcases List.mem_cons.1 hc with rfl | hc
    · decide
    · exact hdigit _ c hc

theorem word?_toInt (i : Int64) : word? i.toInt = some i := by
  have hlow := Int64.le_toInt i
  have hhigh := Int64.toInt_lt i
  rw [word?, if_pos (by omega), Int64.ofInt_toInt]

theorem word?_eq_some_iff {z : Int} {i : Int64} : word? z = some i ↔ i.toInt = z := by
  constructor
  · intro h
    rw [word?] at h
    split at h
    next hz =>
      obtain rfl := Option.some.inj h
      exact Int64.toInt_ofInt_of_le hz.1 hz.2
    next => cases h
  · rintro rfl
    exact word?_toInt i

/-- **A word is the literal that its text is**, unless it is the least one. -/
theorem literal_toString (i : Int64) : literal (toString i.toInt).toList =
    if i = Int64.minValue then .error .malformed else .ok i := by
  have hlow := Int64.le_toInt i
  rw [toList_toString]
  by_cases hi : 0 ≤ i.toInt
  · have hmin : i ≠ Int64.minValue := fun h => by rw [h] at hi; exact absurd hi (by decide)
    rw [if_pos hi, if_neg hmin, literal_toDigits, Int.toNat_of_nonneg hi, word?_toInt, accept]
  · rw [if_neg hi]
    change (accept (magnitude? (Nat.toDigits 10 (-i.toInt).toNat))).bind _ = _
    rw [magnitude?_toDigits, Int.toNat_of_nonneg (by omega)]
    by_cases hmin : i = Int64.minValue
    · subst hmin
      rfl
    · have hne : i.toInt ≠ Int64.minValue.toInt := fun h => hmin (Int64.toInt_inj.1 h)
      have hleast : Int64.minValue.toInt = -0x8000000000000000 := rfl
      have hword : (Int64.ofInt (-i.toInt)).toInt = -i.toInt :=
        Int64.toInt_ofInt_of_le (by omega) (by omega)
      rw [if_neg hmin, ← hword, word?_toInt]
      exact checked_eq_ok_iff.2 (by rw [hword, Int.neg_neg])

end Integer
end CommandBridge
