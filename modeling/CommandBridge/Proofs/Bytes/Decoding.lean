/-
# Decoding undoes encoding

A character that is read off some bytes is written as just these bytes
(`encodeChar_of_decodeChar?`): the ranges of the continuation bytes leave no
overlong form, so the number of bytes and each of them can be told from the code
point.  Hence well-formed text keeps its bytes when it is read and written again
(`encode_of_text?`).
-/

import CommandBridge.Bytes.Utf8
import Mathlib.Tactic.SplitIfs

namespace CommandBridge
namespace Utf8

theorem fitting_eq_length {ranges : List (UInt8 × UInt8)} {low high : UInt8} {bs : Bytes}
    (h : fitting ((low, high) :: ranges) bs = ((low, high) :: ranges).length) :
    ∃ b r, bs = b :: r ∧ low ≤ b ∧ b ≤ high ∧ fitting ranges r = ranges.length := by
  cases bs with
  | nil => cases h
  | cons b r =>
    rw [fitting] at h
    split_ifs at h with hb
    exact ⟨b, r, rfl, hb.1, hb.2, Nat.succ.inj h⟩

/-- The code point of a character made of it. -/
theorem toNat_ofNat {n : Nat} (h : n.isValidChar) : (Char.ofNat n).val.toNat = n := by
  rw [Char.ofNat, dif_pos h]
  rfl

theorem toNat_ofNat_byte (b : UInt8) : (Char.ofNat b.toNat).toNat = b.toNat :=
  toNat_ofNat (.inl (by have := b.toNat_lt; omega))

section Bytes

variable {a b c d : UInt8}

theorem ofNat_eq {n : Nat} (h : n = a.toNat) : UInt8.ofNat n = a := by
  rw [h, UInt8.ofNat_toNat]

theorem encodeChar_one (ha : a < 0x80) :
    String.utf8EncodeChar (Char.ofNat (codePoint a [])) = [a] := by
  have ha : a.toNat < 0x80 := ha
  have hn : codePoint a [] = a.toNat := rfl
  rw [hn, String.utf8EncodeChar, toNat_ofNat (.inl (by omega)), if_pos (by omega),
    UInt8.ofNat_toNat]

theorem encodeChar_two (ha : 0xC2 ≤ a) (ha' : a < 0xE0) (hb : 0x80 ≤ b) (hb' : b ≤ 0xBF) :
    String.utf8EncodeChar (Char.ofNat (codePoint a [b])) = [a, b] := by
  have ha : 0xC2 ≤ a.toNat := ha
  have ha' : a.toNat < 0xE0 := ha'
  have hb : 0x80 ≤ b.toNat := hb
  have hb' : b.toNat ≤ 0xBF := hb'
  have hn : codePoint a [b] = 64 * (a.toNat % 32) + b.toNat % 64 := rfl
  rw [hn, String.utf8EncodeChar, toNat_ofNat (.inl (by omega)), if_neg (by omega),
    if_pos (by omega), ofNat_eq (a := a) (by omega), ofNat_eq (a := b) (by omega)]

theorem encodeChar_three (ha : 0xE0 ≤ a) (ha' : a < 0xF0) (hb : 0x80 ≤ b) (hb' : b ≤ 0xBF)
    (hlong : a = 0xE0 → 0xA0 ≤ b) (hpair : a = 0xED → b ≤ 0x9F) (hc : 0x80 ≤ c) (hc' : c ≤ 0xBF) :
    String.utf8EncodeChar (Char.ofNat (codePoint a [b, c])) = [a, b, c] := by
  have ha : 0xE0 ≤ a.toNat := ha
  have ha' : a.toNat < 0xF0 := ha'
  have hb : 0x80 ≤ b.toNat := hb
  have hb' : b.toNat ≤ 0xBF := hb'
  have hc : 0x80 ≤ c.toNat := hc
  have hc' : c.toNat ≤ 0xBF := hc'
  have hlong : a.toNat = 0xE0 → 0xA0 ≤ b.toNat := fun h => hlong (UInt8.toNat_inj.1 h)
  have hpair : a.toNat = 0xED → b.toNat ≤ 0x9F := fun h => hpair (UInt8.toNat_inj.1 h)
  have hn : codePoint a [b, c] = 64 * (64 * (a.toNat % 16) + b.toNat % 64) + c.toNat % 64 := rfl
  have hv : (codePoint a [b, c]).isValidChar := by
    rw [hn]
    unfold Nat.isValidChar
    omega
  rw [hn] at hv ⊢
  rw [String.utf8EncodeChar, toNat_ofNat hv, if_neg (by omega), if_neg (by omega),
    if_pos (by omega), ofNat_eq (a := a) (by omega), ofNat_eq (a := b) (by omega),
    ofNat_eq (a := c) (by omega)]

theorem encodeChar_four (ha : 0xF0 ≤ a) (ha' : a ≤ 0xF4) (hb : 0x80 ≤ b) (hb' : b ≤ 0xBF)
    (hlong : a = 0xF0 → 0x90 ≤ b) (hlast : a = 0xF4 → b ≤ 0x8F) (hc : 0x80 ≤ c) (hc' : c ≤ 0xBF)
    (hd : 0x80 ≤ d) (hd' : d ≤ 0xBF) :
    String.utf8EncodeChar (Char.ofNat (codePoint a [b, c, d])) = [a, b, c, d] := by
  have ha : 0xF0 ≤ a.toNat := ha
  have ha' : a.toNat ≤ 0xF4 := ha'
  have hb : 0x80 ≤ b.toNat := hb
  have hb' : b.toNat ≤ 0xBF := hb'
  have hc : 0x80 ≤ c.toNat := hc
  have hc' : c.toNat ≤ 0xBF := hc'
  have hd : 0x80 ≤ d.toNat := hd
  have hd' : d.toNat ≤ 0xBF := hd'
  have hlong : a.toNat = 0xF0 → 0x90 ≤ b.toNat := fun h => hlong (UInt8.toNat_inj.1 h)
  have hlast : a.toNat = 0xF4 → b.toNat ≤ 0x8F := fun h => hlast (UInt8.toNat_inj.1 h)
  have hn : codePoint a [b, c, d] =
      64 * (64 * (64 * (a.toNat % 8) + b.toNat % 64) + c.toNat % 64) + d.toNat % 64 := rfl
  have hv : (codePoint a [b, c, d]).isValidChar := by
    rw [hn]
    unfold Nat.isValidChar
    omega
  rw [hn] at hv ⊢
  rw [String.utf8EncodeChar, toNat_ofNat hv, if_neg (by omega), if_neg (by omega),
    if_neg (by omega), ofNat_eq (a := a) (by omega), ofNat_eq (a := b) (by omega),
    ofNat_eq (a := c) (by omega), ofNat_eq (a := d) (by omega)]

end Bytes

/-- **A character is written as the bytes that it was read from.** -/
theorem encodeChar_of_decodeChar? {bs rest : Bytes} {c : Char}
    (h : decodeChar? bs = some (c, rest)) : String.utf8EncodeChar c ++ rest = bs := by
  cases bs with
  | nil => cases h
  | cons a r =>
    obtain ⟨ranges, hr, h⟩ := Option.bind_eq_some_iff.1 h
    split_ifs at h with hf
    cases h
    unfold followers? at hr
    split_ifs at hr with h₁ h₂ h₃ h₄ h₅ h₆ h₇ h₈ h₉ <;> cases hr
    · exact congrArg (· ++ r) (encodeChar_one h₁)
    · obtain ⟨b, r, rfl, hb, hb', -⟩ := fitting_eq_length hf
      exact congrArg (· ++ r) (encodeChar_two (UInt8.not_lt.1 h₂) h₃ hb hb')
    · obtain ⟨b, r, rfl, hb, hb', hf⟩ := fitting_eq_length hf
      obtain ⟨c, r, rfl, hc, hc', -⟩ := fitting_eq_length hf
      subst h₄
      exact congrArg (· ++ r) (encodeChar_three (by decide) (by decide)
        (UInt8.le_trans (by decide) hb) hb' (fun _ => hb) (fun h => absurd h (by decide)) hc hc')
    · obtain ⟨b, r, rfl, hb, hb', hf⟩ := fitting_eq_length hf
      obtain ⟨c, r, rfl, hc, hc', -⟩ := fitting_eq_length hf
      subst h₅
      exact congrArg (· ++ r) (encodeChar_three (by decide) (by decide) hb
        (UInt8.le_trans hb' (by decide)) (fun h => absurd h (by decide)) (fun _ => hb') hc hc')
    · obtain ⟨b, r, rfl, hb, hb', hf⟩ := fitting_eq_length hf
      obtain ⟨c, r, rfl, hc, hc', -⟩ := fitting_eq_length hf
      exact congrArg (· ++ r) (encodeChar_three (UInt8.not_lt.1 h₃) h₆ hb hb'
        (fun h => absurd h h₄) (fun h => absurd h h₅) hc hc')
    · obtain ⟨b, r, rfl, hb, hb', hf⟩ := fitting_eq_length hf
      obtain ⟨c, r, rfl, hc, hc', hf⟩ := fitting_eq_length hf
      obtain ⟨d, r, rfl, hd, hd', -⟩ := fitting_eq_length hf
      subst h₇
      exact congrArg (· ++ r) (encodeChar_four (by decide) (by decide)
        (UInt8.le_trans (by decide) hb) hb' (fun _ => hb) (fun h => absurd h (by decide))
        hc hc' hd hd')
    · obtain ⟨b, r, rfl, hb, hb', hf⟩ := fitting_eq_length hf
      obtain ⟨c, r, rfl, hc, hc', hf⟩ := fitting_eq_length hf
      obtain ⟨d, r, rfl, hd, hd', -⟩ := fitting_eq_length hf
      exact congrArg (· ++ r) (encodeChar_four (UInt8.not_lt.1 h₆) (UInt8.le_of_lt h₈) hb hb'
        (fun h => absurd h h₇) (fun h => absurd (h ▸ h₈) (by decide)) hc hc' hd hd')
    · obtain ⟨b, r, rfl, hb, hb', hf⟩ := fitting_eq_length hf
      obtain ⟨c, r, rfl, hc, hc', hf⟩ := fitting_eq_length hf
      obtain ⟨d, r, rfl, hd, hd', -⟩ := fitting_eq_length hf
      subst h₉
      exact congrArg (· ++ r) (encodeChar_four (by decide) (by decide) hb
        (UInt8.le_trans hb' (by decide)) (fun h => absurd h (by decide)) (fun _ => hb')
        hc hc' hd hd')

theorem encodeChars_of_decode? {bs : Bytes} {cs : List Char} (h : decode? bs = some cs) :
    encodeChars cs = bs := by
  fun_induction decode? bs generalizing cs with
  | case1 bs he =>
    obtain rfl := Option.some.inj h
    exact (List.isEmpty_iff.1 he).symm
  | case2 => cases h
  | case3 bs he c rest hc ih =>
    obtain ⟨cs, hcs, rfl⟩ := Option.map_eq_some_iff.1 h
    rw [encodeChars, List.flatMap_cons]
    exact (congrArg _ (ih hcs)).trans (encodeChar_of_decodeChar? hc)

/-- **Well-formed text keeps its bytes.** -/
theorem encode_of_text? {bs : Bytes} {s : String} (h : text? bs = some s) : encode s = bs := by
  obtain ⟨cs, hcs, rfl⟩ := Option.map_eq_some_iff.1 h
  rw [encode, String.toList_ofList]
  exact encodeChars_of_decode? hcs

end Utf8
end CommandBridge
