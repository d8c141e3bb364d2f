/-
# Numbers that integers convert to

The number nearest to an integer of 64 bits has a mantissa `m` of 53 bits, or
the power of two behind them, on a power `2 ^ e` of smallest steps
(`exists_magnitudeBits`).  It is an integer itself: below `2 ^ 53` nothing is
lost, and above the steps are integers already (`one_dvd`).  As rounding does not
pass `2 ^ 63`, that integer is again one of 64 bits, and it converts to the same
number, with one exception: the greatest integers round to `2 ^ 63`, which no
integer of 64 bits equals (`ofInt_eq_cases`).
-/

import CommandBridge.Number.Binary64
import CommandBridge.Number.Integer
import Mathlib.Data.Nat.Log
import Mathlib.Tactic.Ring
import Mathlib.Tactic.SplitIfs

namespace CommandBridge
namespace Binary64

/-- The exponent stays a name, so that nothing computes the power. -/
theorem exists_one_eq : ∃ p, p = 1074 ∧ one = 2 ^ p :=
  have h : ∀ n, ∃ p, p = n ∧ 1 <<< n = 2 ^ p := fun n => ⟨n, rfl, Nat.one_shiftLeft n⟩
  h 1074

/-! ### Rounding a quotient -/

theorem le_roundDiv {num den c : Nat} (hd : 0 < den) (h : c * den ≤ num) :
    c ≤ roundDiv num den := by
  have hq : c ≤ num / den := (Nat.le_div_iff_mul_le hd).2 h
  unfold roundDiv
  dsimp only
  split_ifs <;> omega

/-- Rounding does not pass a natural number. -/
theorem roundDiv_le {num den c : Nat} (hd : 0 < den) (h : num ≤ c * den) :
    roundDiv num den ≤ c := by
  have hdm := Nat.div_add_mod num den
  have hr := Nat.mod_lt num hd
  unfold roundDiv
  dsimp only
  by_cases hq : num / den < c
  · split_ifs <;> omega
  · have hc : c * den ≤ den * (num / den) := by
      rw [Nat.mul_comm c]
      exact Nat.mul_le_mul_left den (by omega)
    have hz : num % den = 0 := by omega
    rw [hz, if_pos (by omega)]
    exact Nat.div_le_of_le_mul (by rwa [Nat.mul_comm])

theorem roundDiv_mul {den : Nat} (hd : 0 < den) (c : Nat) : roundDiv (c * den) den = c :=
  Nat.le_antisymm (roundDiv_le hd le_rfl) (le_roundDiv hd le_rfl)

/-! ### The fields of a pattern -/

theorem toNat_signed {neg : Bool} {b : Nat} (hb : b < infinityBits) :
    (signed neg b).bits.toNat = if neg then signBit + b else b := by
  rw [signed, UInt64.toNat_ofNat']
  have : infinityBits < signBit := by decide
  have hs : signBit + signBit = 2 ^ 64 := by decide
  exact Nat.mod_eq_of_lt (by split_ifs <;> omega)

theorem negative_signed {neg : Bool} {b : Nat} (hb : b < infinityBits) :
    (signed neg b).negative = neg := by
  have : infinityBits < signBit := by decide
  rw [negative, toNat_signed hb]
  cases neg with
  | false => simpa using by omega
  | true => simp

theorem exponentField_signed {neg : Bool} {b : Nat} (hb : b < infinityBits) :
    (signed neg b).exponentField = b / leadingBit := by
  rw [exponentField, toNat_signed hb]
  simp only [infinityBits, signBit, leadingBit] at hb ⊢
  split_ifs <;> omega

theorem fraction_signed {neg : Bool} {b : Nat} (hb : b < infinityBits) :
    (signed neg b).fraction = b % leadingBit := by
  rw [fraction, toNat_signed hb]
  simp only [signBit, leadingBit]
  split_ifs <;> omega

theorem isFinite_signed {neg : Bool} {b : Nat} (hb : b < infinityBits) :
    (signed neg b).isFinite = true := by
  rw [isFinite, exponentField_signed hb, bne_iff_ne]
  simp only [infinityBits, leadingBit] at hb ⊢
  omega

/-! ### Mantissas of fifty-three bits -/

section Normal

variable {e m : Nat}

/-- The highest mantissa carries into the exponent. -/
theorem normal_lt (he : e + 2 < 2047) (hm : m ≤ 2 * leadingBit) :
    e * leadingBit + m < infinityBits := by
  simp only [infinityBits, leadingBit] at *
  omega

theorem scaled_signed (neg : Bool) (he : e + 2 < 2047) (hl : leadingBit ≤ m)
    (hm : m ≤ 2 * leadingBit) : (signed neg (e * leadingBit + m)).scaled = m * 2 ^ e := by
  have hlt := normal_lt he hm
  rw [scaled, mantissa, scale, exponentField_signed hlt, fraction_signed hlt, Nat.shiftLeft_eq]
  rcases Nat.lt_or_eq_of_le hm with h | rfl
  · have hq : (e * leadingBit + m) / leadingBit = e + 1 := by
      simp only [leadingBit] at *
      omega
    have hr : leadingBit + (e * leadingBit + m) % leadingBit = m := by
      simp only [leadingBit] at *
      omega
    rw [hq, hr, if_neg (by omega), Nat.add_sub_cancel]
  · have hq : (e * leadingBit + 2 * leadingBit) / leadingBit = e + 2 := by
      simp only [leadingBit]
      omega
    have hr : (e * leadingBit + 2 * leadingBit) % leadingBit = 0 := by
      simp only [leadingBit]
      omega
    rw [hq, hr, if_neg (by omega), Nat.add_zero, Nat.add_succ_sub_one, Nat.pow_succ]
    ring

theorem log2_mul_two_pow (hl : leadingBit ≤ m) (hm : m < 2 * leadingBit) :
    (m * 2 ^ e).log2 = e + 52 := by
  have hlead : leadingBit = 2 ^ 52 := by decide
  have he : 0 < 2 ^ e := Nat.two_pow_pos e
  rw [Nat.log2_eq_iff (by have := Nat.mul_pos (show 0 < m by omega) he; omega)]
  constructor
  · calc 2 ^ (e + 52) = leadingBit * 2 ^ e := by rw [hlead, ← Nat.pow_add, Nat.add_comm]
      _ ≤ m * 2 ^ e := Nat.mul_le_mul_right _ hl
  · calc m * 2 ^ e < 2 * leadingBit * 2 ^ e := Nat.mul_lt_mul_of_pos_right hm he
      _ = 2 ^ (e + 52 + 1) := by rw [hlead]; ring

/-- What is a mantissa on a power of steps is not rounded. -/
theorem magnitudeBits_of_eq {n : Nat} (h : n * one = m * 2 ^ e) (he : e + 2 < 2047)
    (hl : leadingBit ≤ m) (hm : m ≤ 2 * leadingBit) :
    magnitudeBits n 1 = e * leadingBit + m := by
  have hlow : ∀ {e m : Nat}, n * one = m * 2 ^ e → e + 1 < 2047 → leadingBit ≤ m →
      m < 2 * leadingBit → magnitudeBits n 1 = e * leadingBit + m := by
    intro e m h he hl hm
    have hlt : e * leadingBit + m < infinityBits := by
      simp only [infinityBits, leadingBit] at *
      omega
    rw [magnitudeBits, Nat.div_one, h, log2_mul_two_pow hl hm, Nat.add_sub_cancel,
      Nat.one_shiftLeft, roundDiv_mul (Nat.two_pow_pos e)]
    exact Nat.min_eq_left (Nat.le_of_lt hlt)
  rcases Nat.lt_or_eq_of_le hm with hm | rfl
  · exact hlow h (by omega) hl hm
  · have h' : n * one = leadingBit * 2 ^ (e + 1) := by
      rw [h, Nat.pow_succ]
      ring
    rw [hlow h' (by omega) le_rfl (by decide)]
    ring

end Normal

/-- A natural number rounded to a power of steps is a natural number. -/
theorem one_dvd_roundDiv (n e : Nat) : one ∣ roundDiv (n * one) (2 ^ e) * 2 ^ e := by
  obtain ⟨p, -, hone⟩ := exists_one_eq
  rw [hone]
  rcases Nat.le_total p e with he | he
  · exact Dvd.dvd.mul_left (Nat.pow_dvd_pow 2 he) _
  · have hn : n * 2 ^ p = n * 2 ^ (p - e) * 2 ^ e := by
      rw [Nat.mul_assoc, ← Nat.pow_add, Nat.sub_add_cancel he]
    rw [hn, roundDiv_mul (Nat.two_pow_pos e), ← hn]
    exact Nat.dvd_mul_left _ n

/-- **The magnitude nearest to a positive integer up to `2 ^ 63`** is a mantissa on
a power of steps, is an integer, and does not pass `2 ^ 63` either. -/
theorem exists_magnitudeBits {n : Nat} (hn : 0 < n) (hn' : n ≤ 2 ^ 63) : ∃ e m j,
    magnitudeBits n 1 = e * leadingBit + m ∧ e + 2 < 2047 ∧ leadingBit ≤ m ∧
      m ≤ 2 * leadingBit ∧ j * one = m * 2 ^ e ∧ 0 < j ∧ j ≤ 2 ^ 63 := by
  have hlead : leadingBit = 2 ^ 52 := by decide
  obtain ⟨p, hp, hone⟩ := exists_one_eq
  have hone₀ : 0 < one := hone ▸ Nat.two_pow_pos p
  have hN₁ : one ≤ n * one := Nat.le_mul_of_pos_left one hn
  have hN₂ : n * one ≤ 2 ^ (p + 63) := by
    rw [Nat.pow_add, ← hone, Nat.mul_comm one]
    exact Nat.mul_le_mul_right _ hn'
  -- the exponent is that of the highest bit, fifty-two below
  obtain ⟨l, hl⟩ : ∃ l, (n * one).log2 = l := ⟨_, rfl⟩
  obtain ⟨hlow, hhigh⟩ := (Nat.log2_eq_iff (by omega)).1 hl
  have hl₁ : p < l + 1 :=
    (Nat.pow_lt_pow_iff_right (by decide)).1 (hone ▸ Nat.lt_of_le_of_lt hN₁ hhigh)
  have hl₂ : l ≤ p + 63 := (Nat.pow_le_pow_iff_right (by decide)).1 (hlow.trans hN₂)
  obtain ⟨e, rfl⟩ : ∃ e, l = e + 52 := ⟨l - 52, by omega⟩
  have he : 0 < 2 ^ e := Nat.two_pow_pos e
  have hm₁ : leadingBit ≤ roundDiv (n * one) (2 ^ e) := by
    have : leadingBit * 2 ^ e = 2 ^ (e + 52) := by rw [hlead, ← Nat.pow_add, Nat.add_comm]
    exact le_roundDiv he (this.trans_le hlow)
  have hm₂ : roundDiv (n * one) (2 ^ e) ≤ 2 * leadingBit := by
    have : 2 ^ (e + 52 + 1) = 2 * leadingBit * 2 ^ e := by
      rw [hlead]
      ring
    exact roundDiv_le he (Nat.le_of_lt (hhigh.trans_eq this))
  have hm₃ : roundDiv (n * one) (2 ^ e) * 2 ^ e ≤ 2 ^ 63 * one := by
    have hq : 2 ^ (p + 63) = 2 ^ (p + 63 - e) * 2 ^ e := by
      rw [← Nat.pow_add, Nat.sub_add_cancel (by omega)]
    have hle := Nat.mul_le_mul_right (2 ^ e) (roundDiv_le he (hN₂.trans_eq hq))
    rwa [← hq, Nat.pow_add, ← hone, Nat.mul_comm one] at hle
  obtain ⟨j, hj⟩ := one_dvd_roundDiv n e
  rw [Nat.mul_comm one] at hj
  refine ⟨e, _, j, ?_, by omega, hm₁, hm₂, hj.symm, ?_, ?_⟩
  · rw [magnitudeBits, Nat.div_one, hl, Nat.add_sub_cancel, Nat.one_shiftLeft]
    exact Nat.min_eq_left (Nat.le_of_lt (normal_lt (by omega) hm₂))
  · have hlead₀ : 0 < leadingBit := by decide
    have hm₀ := Nat.mul_pos (Nat.lt_of_lt_of_le hlead₀ hm₁) he
    rw [hj] at hm₀
    exact Nat.pos_of_mul_pos_right hm₀
  · rw [hj] at hm₃
    exact Nat.le_of_mul_le_mul_right hm₃ hone₀

/-! ### Integers of sixty-four bits -/

/-- The integer that a number on a power of steps equals. -/
theorem toInt?_signed (neg : Bool) {e m j : Nat} (he : e + 2 < 2047) (hl : leadingBit ≤ m)
    (hm : m ≤ 2 * leadingBit) (hj : j * one = m * 2 ^ e) :
    (signed neg (e * leadingBit + m)).toInt? = some (if neg then -(j : Int) else j) := by
  obtain ⟨p, -, hone⟩ := exists_one_eq
  have hone₀ : 0 < one := hone ▸ Nat.two_pow_pos p
  have hlt := normal_lt he hm
  rw [toInt?, truncate, isFinite_signed hlt, negative_signed hlt, scaled_signed neg he hl hm, ← hj,
    Nat.mul_mod_left, Nat.mul_div_cancel _ hone₀]
  rfl

/-- The greatest integers of 64 bits convert to `2 ^ 63`. -/
def beyond : Binary64 := ⟨0x43E0000000000000⟩

theorem ofInt_zero : ofInt 0 = ⟨0⟩ ∧ (⟨0⟩ : Binary64).toInt? = some 0 := by
  decide +kernel

theorem ofInt_two_pow : ofInt (2 ^ 63) = beyond := by
  decide +kernel

theorem toInt?_beyond : beyond.toInt? = some (2 ^ 63) := by
  decide +kernel

/-- **A number that an integer of 64 bits converts to is such an integer itself,
and that integer converts back to it**, unless the number is `2 ^ 63`. -/
theorem ofInt_eq_cases {x : Binary64} {i : Int64} (h : ofInt i.toInt = x) :
    x = beyond ∨ ∃ j : Int64, x.toInt? = some j.toInt ∧ ofInt j.toInt = x := by
  have hi₁ := i.le_toInt
  have hi₂ := i.toInt_lt
  rcases Nat.eq_zero_or_pos i.toInt.natAbs with hz | hpos
  · rw [Int.natAbs_eq_zero.1 hz, ofInt_zero.1] at h
    subst h
    exact .inr ⟨0, ofInt_zero.2, ofInt_zero.1⟩
  · obtain ⟨e, m, j, hb, he, hl, hm, hj, hj₀, hj₁⟩ := exists_magnitudeBits hpos (by omega)
    have hj' := magnitudeBits_of_eq hj he hl hm
    rw [ofInt, ofRatio, hb] at h
    by_cases hneg : i.toInt < 0
    · have hw : (Int64.ofInt (-j)).toInt = -j := Int64.toInt_ofInt_of_le (by omega) (by omega)
      refine .inr ⟨Int64.ofInt (-j), ?_, ?_⟩
      · rw [← h, toInt?_signed _ he hl hm hj, hw, decide_eq_true hneg, if_pos rfl]
      · rw [hw, ofInt, ofRatio, Int.natAbs_neg, Int.natAbs_natCast, hj', ← h,
          decide_eq_true hneg, decide_eq_true (by omega)]
    · rw [decide_eq_false hneg] at h
      have hx : ofInt j = x := by
        rw [ofInt, ofRatio, Int.natAbs_natCast, hj', decide_eq_false (by omega), h]
      rcases Nat.lt_or_eq_of_le hj₁ with hlt | rfl
      · have hw : (Int64.ofInt j).toInt = j := Int64.toInt_ofInt_of_le (by omega) (by omega)
        refine .inr ⟨Int64.ofInt j, ?_, by rw [hw, hx]⟩
        rw [← h, toInt?_signed _ he hl hm hj, hw]
        rfl
      · exact .inl (hx.symm.trans ofInt_two_pow)

/-! ### Numbers that equal an integer -/

/-- A pattern is its sign on its magnitude. -/
theorem eq_signed (x : Binary64) :
    x = signed x.negative (x.exponentField * leadingBit + x.fraction) := by
  obtain ⟨bits⟩ := x
  have hlt := bits.toNat_lt
  refine congrArg Binary64.mk (UInt64.toNat_inj.1 ?_)
  rw [UInt64.toNat_ofNat']
  by_cases hneg : signBit ≤ bits.toNat
  · rw [negative, decide_eq_true hneg, if_pos rfl, exponentField, fraction]
    simp only [signBit, leadingBit] at hneg ⊢
    omega
  · rw [negative, decide_eq_false hneg, if_neg Bool.false_ne_true, exponentField, fraction]
    simp only [signBit, leadingBit] at hneg ⊢
    omega

/-- A number equals an integer if its magnitude is as many times one. -/
theorem toInt?_eq_some_iff {x : Binary64} {z : Int} : x.toInt? = some z ↔ x.isFinite = true ∧
    ∃ j : Nat, x.scaled = j * one ∧ (if x.negative then -(j : Int) else j) = z := by
  obtain ⟨p, -, hone⟩ := exists_one_eq
  have hone₀ : 0 < one := hone ▸ Nat.two_pow_pos p
  rw [toInt?, truncate]
  constructor
  · intro h
    obtain ⟨hx, h⟩ := (ite_eq_iff.1 h).resolve_right nofun
    obtain ⟨hf, hmod⟩ := Bool.and_eq_true_iff.1 hx
    have hdvd := Nat.dvd_of_mod_eq_zero (beq_iff_eq.1 hmod)
    rw [if_pos hf] at h
    exact ⟨hf, _, (Nat.div_mul_cancel hdvd).symm, Option.some.inj h⟩
  · rintro ⟨hf, j, hj, rfl⟩
    rw [hf, hj, Nat.mul_mod_left, Nat.mul_div_cancel _ hone₀]
    rfl

/-- The two zeros. -/
theorem toInt?_eq_zero_iff {x : Binary64} :
    x.toInt? = some 0 ↔ x.isFinite = true ∧ x.scaled = 0 := by
  rw [toInt?_eq_some_iff]
  refine and_congr_right fun _ => ⟨?_, fun h => ⟨0, by rw [h, Nat.zero_mul], by simp⟩⟩
  rintro ⟨j, hj, hz⟩
  obtain rfl : j = 0 := by
    split at hz <;> omega
  rw [hj, Nat.zero_mul]

/-- **An integer of 64 bits converts to the number that equals it**, and zero to one of the two
that do. -/
theorem ofInt_of_toInt? {x : Binary64} {i : Int64} (h : x.toInt? = some i.toInt) (hi : i ≠ 0) :
    ofInt i.toInt = x := by
  obtain ⟨p, hp, hone⟩ := exists_one_eq
  obtain ⟨-, j, hj, hsign⟩ := toInt?_eq_some_iff.1 h
  have hi₀ : i.toInt ≠ 0 := fun h => hi (Int64.toInt_inj.1 h)
  have hi₁ := i.le_toInt
  have hi₂ := i.toInt_lt
  have hj₀ : 0 < j := by split at hsign <;> omega
  have hj₁ : j ≤ 2 ^ 63 := by split at hsign <;> omega
  have hfraction : x.fraction < leadingBit := Nat.mod_lt _ (by decide)
  have hlead : leadingBit = 2 ^ 52 := by decide
  have hnormal : x.exponentField ≠ 0 := by
    intro hz
    have hsmall : leadingBit < one := by
      rw [hone, hlead]
      exact Nat.pow_lt_pow_right (by decide) (by omega)
    have hle : one ≤ j * one := Nat.le_mul_of_pos_left one hj₀
    rw [scaled, mantissa, scale, if_pos hz, hz, Nat.shiftLeft_eq, Nat.pow_zero, Nat.mul_one] at hj
    omega
  rw [scaled, mantissa, scale, if_neg hnormal, Nat.shiftLeft_eq] at hj
  obtain ⟨e, he⟩ : ∃ e, x.exponentField = e + 1 := ⟨x.exponentField - 1, by omega⟩
  rw [he, Nat.add_sub_cancel] at hj
  -- the integer is too small for the greatest exponents
  have hbound : e + 2 < 2047 := by
    have hpow : 2 ^ (52 + e) ≤ 2 ^ (63 + p) := by
      rw [Nat.pow_add, Nat.pow_add, ← hlead, ← hone]
      exact (Nat.mul_le_mul_right _ (Nat.le_add_right _ _)).trans
        (hj.trans_le (Nat.mul_le_mul_right _ hj₁))
    have := (Nat.pow_le_pow_iff_right (by decide)).1 hpow
    omega
  have hmagnitude : magnitudeBits j 1 = x.exponentField * leadingBit + x.fraction := by
    rw [magnitudeBits_of_eq hj.symm hbound (Nat.le_add_right _ _) (by omega), he]
    ring
  have hnatAbs : i.toInt.natAbs = j := by split at hsign <;> omega
  have hneg : decide (i.toInt < 0) = x.negative := by
    split at hsign
    · rename_i hx
      rw [hx, decide_eq_true_iff]
      omega
    · rename_i hx
      rw [Bool.eq_false_of_not_eq_true hx, decide_eq_false_iff_not]
      omega
  rw [ofInt, ofRatio, hnatAbs, hmagnitude, hneg]
  exact x.eq_signed.symm

/-- A natural number of 53 bits is a mantissa on a power of steps. -/
theorem exists_mantissa {n : Nat} (hn : 0 < n) (hn' : n ≤ 2 ^ 53) : ∃ e m,
    n * one = m * 2 ^ e ∧ e + 2 < 2047 ∧ leadingBit ≤ m ∧ m ≤ 2 * leadingBit := by
  obtain ⟨p, hp, hone⟩ := exists_one_eq
  have hlead : leadingBit = 2 ^ 52 := by decide
  obtain ⟨k, hk, hlow, hhigh⟩ : ∃ k ≤ 52, 2 ^ k ≤ n ∧ n ≤ 2 ^ (k + 1) := by
    obtain ⟨l, hl⟩ : ∃ l, n.log2 = l := ⟨_, rfl⟩
    obtain ⟨hlow, hhigh⟩ := (Nat.log2_eq_iff (by omega)).1 hl
    rcases Nat.lt_or_ge l 53 with hl | hl
    · exact ⟨l, by omega, hlow, hhigh.le⟩
    · exact ⟨52, le_rfl, (Nat.pow_le_pow_right (by decide) (by omega)).trans hlow, hn'⟩
  -- the mantissa gets the zeros that the number is short of
  obtain ⟨d, hd⟩ : ∃ d, k + d = 52 := ⟨52 - k, by omega⟩
  refine ⟨p - d, n * 2 ^ d, ?_, by omega, ?_, ?_⟩
  · rw [Nat.mul_assoc, ← Nat.pow_add, Nat.add_sub_cancel' (by omega), hone]
  · calc leadingBit = 2 ^ k * 2 ^ d := by rw [hlead, ← Nat.pow_add, hd]
      _ ≤ n * 2 ^ d := Nat.mul_le_mul_right _ hlow
  · calc n * 2 ^ d ≤ 2 ^ (k + 1) * 2 ^ d := Nat.mul_le_mul_right _ hhigh
      _ = 2 * leadingBit := by rw [hlead, ← hd, Nat.pow_add, Nat.pow_succ]; ring

/-- Integers of 53 bits are not rounded. -/
theorem toInt?_ofInt {z : Int} (h : z.natAbs ≤ 2 ^ 53) : (ofInt z).toInt? = some z := by
  rcases Nat.eq_zero_or_pos z.natAbs with hz | hpos
  · rw [Int.natAbs_eq_zero.1 hz, ofInt_zero.1, ofInt_zero.2]
  · obtain ⟨e, m, hm, he, hlow, hhigh⟩ := exists_mantissa hpos h
    rw [ofInt, ofRatio, magnitudeBits_of_eq hm he hlow hhigh, toInt?_signed _ he hlow hhigh hm]
    congr 1
    by_cases hneg : z < 0
    · rw [decide_eq_true hneg, if_pos rfl]
      omega
    · rw [decide_eq_false hneg, if_neg Bool.false_ne_true]
      omega

end Binary64
end CommandBridge
