/-
# Encoding undoes decoding

The bytes of a character are a lead byte and continuation bytes in the ranges that
`followers?` gives for it, and they make up its code point (`exists_parts`).  So what is
written as text is read back (`text?_encode`), and it passes the layout test unless it
holds the zero character (`isLayout_encode`).

A text has as many bytes as characters if all of them are ASCII, and more otherwise
(`length_encode_eq_iff`).
-/

import CommandBridge.Proofs.Bytes.Decoding
import Mathlib.Data.List.Forall2

namespace CommandBridge
namespace Utf8

/-! ### Lead bytes -/

/-- What is checked of all numbers below 256 holds of all bytes. -/
theorem forall_byte {p : UInt8 → Prop} (h : ∀ n : Fin 256, p (UInt8.ofNat n)) (a : UInt8) :
    p a := by
  have ha := h ⟨a.toNat, a.toNat_lt⟩
  rwa [UInt8.ofNat_toNat] at ha

theorem followers?_one : ∀ a : UInt8, a.toNat < 0x80 → followers? a = some [] :=
  forall_byte (by decide +kernel)

theorem followers?_two : ∀ a : UInt8, 0xC2 ≤ a.toNat → a.toNat < 0xE0 →
    followers? a = some [(0x80, 0xBF)] :=
  forall_byte (by decide +kernel)

theorem followers?_three : ∀ a : UInt8, 0xE0 ≤ a.toNat → a.toNat < 0xF0 → followers? a =
    some [(if a.toNat = 0xE0 then 0xA0 else 0x80, if a.toNat = 0xED then 0x9F else 0xBF),
      (0x80, 0xBF)] :=
  forall_byte (by decide +kernel)

theorem followers?_four : ∀ a : UInt8, 0xF0 ≤ a.toNat → a.toNat ≤ 0xF4 → followers? a =
    some [(if a.toNat = 0xF0 then 0x90 else 0x80, if a.toNat = 0xF4 then 0x8F else 0xBF),
      (0x80, 0xBF), (0x80, 0xBF)] :=
  forall_byte (by decide +kernel)

/-- A lead byte announces by its layout as many continuation bytes as it has ranges. -/
theorem layoutFollowers?_of_followers? {a : UInt8} (ha : a ≠ 0) {ranges : List (UInt8 × UInt8)}
    (hranges : followers? a = some ranges) :
    layoutFollowers? a = some ranges.length ∧
      ∀ range ∈ ranges, (0x80 : UInt8) ≤ range.1 ∧ range.2 ≤ (0xBF : UInt8) := by
  have hall : ∀ a : UInt8, (a == 0 || (followers? a).all fun ranges =>
      layoutFollowers? a == some ranges.length &&
        ranges.all fun range => 0x80 ≤ range.1 && range.2 ≤ 0xBF) = true :=
    forall_byte (by decide +kernel)
  have hall := hall a
  rw [hranges, beq_eq_false_iff_ne.2 ha, Bool.false_or, Option.all_some, Bool.and_eq_true,
    beq_iff_eq, List.all_eq_true] at hall
  refine ⟨hall.1, fun range hrange => ?_⟩
  have hbounds := hall.2 range hrange
  rwa [Bool.and_eq_true, decide_eq_true_iff, decide_eq_true_iff] at hbounds

theorem isContinuation_iff : ∀ a : UInt8, isContinuation a = true ↔ 0x80 ≤ a ∧ a ≤ 0xBF :=
  forall_byte (by decide +kernel)

/-! ### The bytes of a character -/

/-- A byte lies in a range. -/
def Within (range : UInt8 × UInt8) (b : UInt8) : Prop :=
  range.1 ≤ b ∧ b ≤ range.2

theorem fitting_of_within {ranges : List (UInt8 × UInt8)} {more : Bytes}
    (h : List.Forall₂ Within ranges more) (rest : Bytes) :
    fitting ranges (more ++ rest) = ranges.length := by
  induction h with
  | nil => cases rest <;> rfl
  | cons hb _ ih =>
    rw [List.cons_append, fitting, ih]
    exact if_pos hb

section Parts

variable {n : Nat}

theorem toNat_lead {b : Nat} (h : n + b < 256) : (UInt8.ofNat (n + b)).toNat = n + b :=
  UInt8.toNat_ofNat_of_lt' h

/-- Six bits of a code point make a continuation byte. -/
theorem toNat_continuation (n : Nat) : (UInt8.ofNat (n % 64 + 128)).toNat = n % 64 + 128 :=
  toNat_lead (by omega)

theorem within_continuation_iff {low high : UInt8} :
    Within (low, high) (UInt8.ofNat (n % 64 + 128)) ↔
      low.toNat ≤ n % 64 + 128 ∧ n % 64 + 128 ≤ high.toNat := by
  rw [Within, UInt8.le_iff_toNat_le, UInt8.le_iff_toNat_le, toNat_continuation]

theorem within_continuation (n : Nat) : Within (0x80, 0xBF) (UInt8.ofNat (n % 64 + 128)) := by
  refine within_continuation_iff.2 ?_
  change 128 ≤ _ ∧ _ ≤ 191
  omega

/-- Two bytes: eleven bits. -/
theorem parts_two (hlow : 0x80 ≤ n) (h : n < 0x800) :
    followers? (UInt8.ofNat (n / 64 % 32 + 192)) = some [(0x80, 0xBF)] ∧
      codePoint (UInt8.ofNat (n / 64 % 32 + 192)) [UInt8.ofNat (n % 64 + 128)] = n := by
  have hlead := toNat_lead (n := n / 64 % 32) (b := 192) (by omega)
  constructor
  · exact followers?_two _ (by omega) (by omega)
  · change 64 * ((UInt8.ofNat _).toNat % 32) + (UInt8.ofNat _).toNat % 64 = n
    rw [hlead, toNat_continuation]
    omega

/-- Three bytes: the second one leaves no overlong form and no surrogate. -/
theorem parts_three (hlow : 0x800 ≤ n) (h : n < 0x10000) (hvalid : n < 0xD800 ∨ 0xDFFF < n) :
    ∃ low high, followers? (UInt8.ofNat (n / 4096 % 16 + 224)) = some [(low, high), (0x80, 0xBF)] ∧
      Within (low, high) (UInt8.ofNat (n / 64 % 64 + 128)) ∧
      codePoint (UInt8.ofNat (n / 4096 % 16 + 224))
        [UInt8.ofNat (n / 64 % 64 + 128), UInt8.ofNat (n % 64 + 128)] = n := by
  have hlead := toNat_lead (n := n / 4096 % 16) (b := 224) (by omega)
  refine ⟨_, _, followers?_three _ (by omega) (by omega), within_continuation_iff.2 ?_, ?_⟩
  · rw [hlead, apply_ite UInt8.toNat, apply_ite UInt8.toNat]
    change (if _ then 160 else 128) ≤ _ ∧ _ ≤ (if _ then 159 else 191)
    split_ifs <;> omega
  · change 64 * (64 * ((UInt8.ofNat _).toNat % 16) + (UInt8.ofNat _).toNat % 64) +
      (UInt8.ofNat _).toNat % 64 = n
    rw [hlead, toNat_continuation, toNat_continuation]
    omega

/-- Four bytes: the second one leaves no overlong form and nothing above the last code
point. -/
theorem parts_four (hlow : 0x10000 ≤ n) (h : n < 0x110000) :
    ∃ low high, followers? (UInt8.ofNat (n / 262144 % 8 + 240)) =
        some [(low, high), (0x80, 0xBF), (0x80, 0xBF)] ∧
      Within (low, high) (UInt8.ofNat (n / 4096 % 64 + 128)) ∧
      codePoint (UInt8.ofNat (n / 262144 % 8 + 240)) [UInt8.ofNat (n / 4096 % 64 + 128),
        UInt8.ofNat (n / 64 % 64 + 128), UInt8.ofNat (n % 64 + 128)] = n := by
  have hlead := toNat_lead (n := n / 262144 % 8) (b := 240) (by omega)
  refine ⟨_, _, followers?_four _ (by omega) (by omega), within_continuation_iff.2 ?_, ?_⟩
  · rw [hlead, apply_ite UInt8.toNat, apply_ite UInt8.toNat]
    change (if _ then 144 else 128) ≤ _ ∧ _ ≤ (if _ then 143 else 191)
    split_ifs <;> omega
  · change 64 * (64 * (64 * ((UInt8.ofNat _).toNat % 8) + (UInt8.ofNat _).toNat % 64) +
      (UInt8.ofNat _).toNat % 64) + (UInt8.ofNat _).toNat % 64 = n
    rw [hlead, toNat_continuation, toNat_continuation, toNat_continuation]
    omega

end Parts

/-- **The bytes of a character are a lead byte and bytes in its ranges, and they make up
the code point.** -/
theorem exists_parts (c : Char) : ∃ lead more ranges, String.utf8EncodeChar c = lead :: more ∧
    followers? lead = some ranges ∧ List.Forall₂ Within ranges more ∧
      codePoint lead more = c.toNat := by
  have hvalid : c.toNat < 0xD800 ∨ 0xDFFF < c.toNat ∧ c.toNat < 0x110000 := c.valid
  rw [String.utf8EncodeChar, show c.val.toNat = c.toNat from rfl]
  generalize c.toNat = n at hvalid
  split_ifs with h₁ h₂ h₃
  · have hlead : (UInt8.ofNat n).toNat = n := toNat_lead (b := 0) (by omega)
    exact ⟨_, _, _, rfl, followers?_one _ (by omega), .nil, hlead⟩
  · obtain ⟨hfollowers, hpoint⟩ := parts_two (n := n) (by omega) (by omega)
    exact ⟨_, _, _, rfl, hfollowers, .cons (within_continuation n) .nil, hpoint⟩
  · obtain ⟨low, high, hfollowers, hsecond, hpoint⟩ :=
      parts_three (n := n) (by omega) (by omega) (by omega)
    exact ⟨_, _, _, rfl, hfollowers, .cons hsecond (.cons (within_continuation n) .nil), hpoint⟩
  · obtain ⟨low, high, hfollowers, hsecond, hpoint⟩ := parts_four (n := n) (by omega) (by omega)
    exact ⟨_, _, _, rfl, hfollowers,
      .cons hsecond (.cons (within_continuation _) (.cons (within_continuation n) .nil)), hpoint⟩

/-! ### Reading what was written -/

/-- **A character is read off the bytes that it is written as.** -/
theorem decodeChar?_encodeChar (c : Char) (rest : Bytes) :
    decodeChar? (String.utf8EncodeChar c ++ rest) = some (c, rest) := by
  obtain ⟨lead, more, ranges, hc, hranges, hmore, hpoint⟩ := exists_parts c
  rw [hc, List.cons_append, decodeChar?, hranges, Option.bind_some,
    if_pos (fitting_of_within hmore rest), hmore.length_eq, List.take_left, List.drop_left, hpoint,
    Char.ofNat_toNat]

theorem decode?_encodeChars (cs : List Char) : decode? (encodeChars cs) = some cs := by
  induction cs with
  | nil => rw [encodeChars, List.flatMap_nil, decode?, List.isEmpty_nil, if_pos rfl]
  | cons c cs ih =>
    have hne : (String.utf8EncodeChar c ++ encodeChars cs).isEmpty = false := by
      obtain ⟨lead, more, -, hc, -⟩ := exists_parts c
      rw [hc]
      rfl
    rw [encodeChars, List.flatMap_cons, decode?]
    change (if (String.utf8EncodeChar c ++ encodeChars cs).isEmpty then _ else _) = _
    rw [hne, if_neg Bool.false_ne_true]
    split
    · rename_i h
      rw [decodeChar?_encodeChar] at h
      cases h
    · rename_i h
      rw [decodeChar?_encodeChar] at h
      cases h
      change (decode? (encodeChars cs)).map _ = _
      rw [ih]
      rfl

/-- **Text that is written is read back.** -/
theorem text?_encode (s : String) : text? (encode s) = some s := by
  rw [text?, encode, decode?_encodeChars, Option.map_some, String.ofList_toList]

/-- The bytes are those of some text. -/
def WellFormed (bs : Bytes) : Prop :=
  ∃ s, encode s = bs

theorem wellFormed_encodeChars (cs : List Char) : WellFormed (encodeChars cs) :=
  ⟨String.ofList cs, by rw [encode, String.toList_ofList]⟩

/-! ### The layout test -/

theorem layoutFrom_append {more : Bytes} (h : ∀ b ∈ more, isContinuation b = true) (rest : Bytes) :
    layoutFrom more.length (more ++ rest) = layoutFrom 0 rest := by
  induction more with
  | nil => rfl
  | cons b more ih =>
    rw [List.length_cons, List.cons_append, layoutFrom, h b List.mem_cons_self, Bool.true_and]
    exact ih fun b' hb' => h b' (List.mem_cons_of_mem b hb')

theorem isContinuation_of_within {ranges : List (UInt8 × UInt8)} {more : Bytes}
    (h : List.Forall₂ Within ranges more)
    (hranges : ∀ range ∈ ranges, (0x80 : UInt8) ≤ range.1 ∧ range.2 ≤ (0xBF : UInt8)) :
    ∀ b ∈ more, isContinuation b = true := by
  induction h with
  | nil => exact fun b hb => nomatch hb
  | @cons range b ranges more hb _ ih =>
    intro b' hb'
    rcases List.mem_cons.1 hb' with rfl | hb'
    · obtain ⟨hlow, hhigh⟩ := hranges range List.mem_cons_self
      exact (isContinuation_iff _).2 ⟨UInt8.le_trans hlow hb.1, UInt8.le_trans hb.2 hhigh⟩
    · exact ih (fun r hr => hranges r (List.mem_cons_of_mem range hr)) b' hb'

/-- A character passes the layout test unless it is zero. -/
theorem layoutFrom_encodeChar (c : Char) (rest : Bytes) :
    layoutFrom 0 (String.utf8EncodeChar c ++ rest) = (c != '\x00' && layoutFrom 0 rest) := by
  obtain ⟨lead, more, ranges, hc, hranges, hmore, hpoint⟩ := exists_parts c
  by_cases hzero : c = '\x00'
  · subst hzero
    rfl
  · have hlead : lead ≠ 0 := by
      rintro rfl
      obtain rfl : [] = ranges := Option.some.inj hranges
      cases hmore
      exact hzero (Char.toNat_inj.1 hpoint.symm)
    obtain ⟨hlayout, hbounds⟩ := layoutFollowers?_of_followers? hlead hranges
    rw [hc, List.cons_append, layoutFrom, hlayout, bne_iff_ne.2 hzero, Bool.true_and]
    dsimp only
    rw [hmore.length_eq]
    exact layoutFrom_append (isContinuation_of_within hmore hbounds) rest

/-- **A text passes the layout test unless it holds the zero character.** -/
theorem isLayout_encode (s : String) : isLayout (encode s) = true ↔ '\x00' ∉ s.toList := by
  rw [isLayout, encode, encodeChars]
  induction s.toList with
  | nil => exact ⟨fun _ => List.not_mem_nil, fun _ => rfl⟩
  | cons c cs ih =>
    rw [List.flatMap_cons, layoutFrom_encodeChar, Bool.and_eq_true, bne_iff_ne, ih,
      List.mem_cons, not_or, ne_comm]

/-! ### ASCII -/

/-- All characters of a text are ASCII. -/
def IsAscii (s : String) : Prop :=
  ∀ c ∈ s.toList, c.toNat < 0x80

theorem encodeChar_of_ascii {c : Char} (h : c.toNat < 0x80) :
    String.utf8EncodeChar c = [UInt8.ofNat c.toNat] :=
  if_pos (Nat.le_of_lt_succ h)

/-- The bytes of an ASCII text are its characters. -/
theorem encode_of_ascii {s : String} (h : IsAscii s) :
    encode s = s.toList.map fun c => UInt8.ofNat c.toNat := by
  rw [encode, encodeChars, ← List.flatMap_pure_eq_map]
  exact List.flatMap_congr fun c hc => encodeChar_of_ascii (h c hc)

theorem length_encodeChar_eq_one_iff (c : Char) :
    (String.utf8EncodeChar c).length = 1 ↔ c.toNat < 0x80 := by
  rw [String.length_utf8EncodeChar, Char.utf8Size_eq_one_iff, UInt32.le_iff_toNat_le]
  exact Nat.lt_succ_iff.symm

theorem length_le_length_encodeChars (cs : List Char) : cs.length ≤ (encodeChars cs).length := by
  induction cs with
  | nil => exact Nat.le_refl 0
  | cons c cs ih =>
    have hpos := c.utf8Size_pos
    rw [encodeChars, List.flatMap_cons, List.length_append, List.length_cons,
      String.length_utf8EncodeChar]
    rw [encodeChars] at ih
    omega

/-- **A text has as many bytes as characters just if it is ASCII.** -/
theorem length_encode_eq_iff (s : String) : (encode s).length = s.toList.length ↔ IsAscii s := by
  rw [encode, IsAscii]
  induction s.toList with
  | nil => exact ⟨fun _ _ hc => absurd hc List.not_mem_nil, fun _ => rfl⟩
  | cons c cs ih =>
    have hpos := c.utf8Size_pos
    have hle := length_le_length_encodeChars cs
    have hlen : (encodeChars (c :: cs)).length = c.utf8Size + (encodeChars cs).length := by
      rw [encodeChars, List.flatMap_cons, List.length_append, String.length_utf8EncodeChar]
      rfl
    rw [List.forall_mem_cons, ← ih, ← length_encodeChar_eq_one_iff, String.length_utf8EncodeChar,
      hlen, List.length_cons]
    omega

end Utf8
end CommandBridge
