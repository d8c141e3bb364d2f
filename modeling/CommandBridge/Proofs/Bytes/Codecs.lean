/-
# Codecs there and back

A text that is encoded and decoded again is the same just if the codec represents all its
characters, and bytes that are decoded and encoded again are the same just if they are what
the codec writes (`Codec.there_and_back`):

| codec | characters | bytes |
| --- | --- | --- |
| `utf8` | all | well-formed UTF-8 |
| `latin1` | up to U+00FF | all |
| `ascii` | up to U+007F | up to `7F` |
| `identity` | all | all |
| `unicode` | all | whole units of well-formed UTF-16 |

The output must find room for that.  Twice as many bytes as the input has are enough for
every codec in both directions.
-/

import CommandBridge.Bytes.Encoding
import CommandBridge.Proofs.Bytes.Encoding
import Mathlib.Algebra.Ring.Nat

namespace CommandBridge

/-! ### Reading leniently -/

namespace Utf8

theorem decodeLenient_of_decodeChar? {bs rest : Bytes} {c : Char}
    (h : decodeChar? bs = some (c, rest)) : decodeLenient bs = c :: decodeLenient rest := by
  cases bs with
  | nil => cases h
  | cons b r =>
    rw [decodeLenient]
    split
    · rename_i h'
      rw [h] at h'
      cases h'
      rfl
    · rename_i h'
      rw [h] at h'
      cases h'

/-- What is written as text is read back. -/
theorem decodeLenient_encodeChars (cs : List Char) : decodeLenient (encodeChars cs) = cs := by
  induction cs with
  | nil => rw [encodeChars, List.flatMap_nil, decodeLenient]
  | cons c cs ih =>
    have hc := decodeChar?_encodeChar c (encodeChars cs)
    rw [encodeChars, List.flatMap_cons] at *
    rw [decodeLenient_of_decodeChar? hc, ih]

theorem decodeLenient_encode (s : String) : decodeLenient (encode s) = s.toList :=
  decodeLenient_encodeChars s.toList

theorem encodeChars_inj {cs ds : List Char} : encodeChars cs = encodeChars ds ↔ cs = ds := by
  refine ⟨fun h => ?_, congrArg _⟩
  rw [← decodeLenient_encodeChars cs, h, decodeLenient_encodeChars]

theorem utf8Size_le_two {c : Char} (h : c.toNat < 0x800) : c.utf8Size ≤ 2 := by
  have h : c.val.toNat < 0x800 := h
  rw [← String.length_utf8EncodeChar, String.utf8EncodeChar]
  split_ifs <;> simp only [List.length_cons, List.length_nil] <;> omega

theorem utf8Size_le_three {c : Char} (h : c.toNat < 0x10000) : c.utf8Size ≤ 3 := by
  have h : c.val.toNat < 0x10000 := h
  rw [← String.length_utf8EncodeChar, String.utf8EncodeChar]
  split_ifs <;> simp only [List.length_cons, List.length_nil] <;> omega

theorem toNat_ofNat_le (n : Nat) : (Char.ofNat n).toNat ≤ n := by
  by_cases h : n.isValidChar
  · exact Nat.le_of_eq (toNat_ofNat h)
  · rw [Char.ofNat, dif_neg h]
    exact Nat.zero_le n

theorem length_encodeChars (cs : List Char) :
    (encodeChars cs).length = (cs.map Char.utf8Size).sum := by
  simp only [encodeChars, List.length_flatMap, String.length_utf8EncodeChar]

theorem utf8Size_byte_le (b : UInt8) : (Char.ofNat b.toNat).utf8Size ≤ 2 := by
  have hb := b.toNat_lt
  have hle := toNat_ofNat_le b.toNat
  exact utf8Size_le_two (by omega)

/-- A bound on what each byte of a character and each stray byte makes bounds the whole. -/
theorem sum_decodeLenient_le {f : Char → Nat} {k : Nat} (hchar : ∀ c, f c ≤ k * c.utf8Size)
    (hbyte : ∀ b : UInt8, f (Char.ofNat b.toNat) ≤ k) (bs : Bytes) :
    ((decodeLenient bs).map f).sum ≤ k * bs.length := by
  fun_induction decodeLenient bs with
  | case1 => simp
  | case2 b r c rest h ih =>
    have hlen := congrArg List.length (encodeChar_of_decodeChar? h)
    rw [List.length_append, String.length_utf8EncodeChar] at hlen
    rw [List.map_cons, List.sum_cons, ← hlen, Nat.mul_add]
    exact Nat.add_le_add (hchar c) ih
  | case3 b r _ ih =>
    rw [List.map_cons, List.sum_cons, List.length_cons, Nat.mul_succ, Nat.add_comm]
    exact Nat.add_le_add ih (hbyte b)

end Utf8

/-! ### UTF-16 -/

namespace Utf16

/-- Each high surrogate is followed by a low one, and no other low one is there. -/
inductive WellFormed : List Nat → Prop where
  | nil : WellFormed []
  | one {u : Nat} {us : List Nat} (hu : u < 0xD800 ∨ 0xE000 ≤ u ∧ u < 0x10000)
      (h : WellFormed us) : WellFormed (u :: us)
  | pair {u v : Nat} {us : List Nat} (hu : 0xD800 ≤ u ∧ u < 0xDC00) (hv : 0xDC00 ≤ v ∧ v < 0xE000)
      (h : WellFormed us) : WellFormed (u :: v :: us)

theorem decode_one {u : Nat} (hu : u < 0xD800 ∨ 0xE000 ≤ u) (us : List Nat) :
    decode (u :: us) = Char.ofNat u :: decode us := by
  have hhigh : isHigh u = false := by simp [isHigh]; omega
  have hlow : isLow u = false := by simp [isLow]; omega
  cases us <;> simp [decode, hhigh, hlow]

theorem decode_pair {u v : Nat} (hu : 0xD800 ≤ u ∧ u < 0xDC00) (hv : 0xDC00 ≤ v ∧ v < 0xE000)
    (us : List Nat) : decode (u :: v :: us) =
      Char.ofNat (0x10000 + (u - 0xD800) * 0x400 + (v - 0xDC00)) :: decode us := by
  have hhigh : isHigh u = true := by simp [isHigh]; omega
  have hlow : isLow v = true := by simp [isLow]; omega
  simp [decode, hhigh, hlow]

/-- The code point of a character. -/
theorem toNat_cases (c : Char) :
    c.toNat < 0xD800 ∨ 0xE000 ≤ c.toNat ∧ c.toNat < 0x110000 := by
  have hvalid : c.toNat < 0xD800 ∨ 0xDFFF < c.toNat ∧ c.toNat < 0x110000 := c.valid
  omega

/-- The units of a character are well-formed in front of others that are, and stand for
the character. -/
theorem units_append (c : Char) (us : List Nat) :
    decode (units c ++ us) = c :: decode us ∧
      (WellFormed us → WellFormed (units c ++ us)) := by
  have hc := toNat_cases c
  rw [units]
  split
  · refine ⟨?_, .one (by omega)⟩
    rw [List.singleton_append, decode_one (by omega), Char.ofNat_toNat]
  · have hhigh : 0xD800 ≤ 0xD800 + (c.toNat - 0x10000) / 0x400 ∧
        0xD800 + (c.toNat - 0x10000) / 0x400 < 0xDC00 := by omega
    have hlow : 0xDC00 ≤ 0xDC00 + (c.toNat - 0x10000) % 0x400 ∧
        0xDC00 + (c.toNat - 0x10000) % 0x400 < 0xE000 := by omega
    refine ⟨?_, .pair hhigh hlow⟩
    rw [List.cons_append, List.singleton_append, decode_pair hhigh hlow]
    have hpoint : 0x10000 + (0xD800 + (c.toNat - 0x10000) / 0x400 - 0xD800) * 0x400 +
        (0xDC00 + (c.toNat - 0x10000) % 0x400 - 0xDC00) = c.toNat := by omega
    rw [hpoint, Char.ofNat_toNat]

theorem decode_units (cs : List Char) : decode (cs.flatMap units) = cs := by
  induction cs with
  | nil => rfl
  | cons c cs ih => rw [List.flatMap_cons, (units_append c _).1, ih]

theorem wellFormed_units (cs : List Char) : WellFormed (cs.flatMap units) := by
  induction cs with
  | nil => exact .nil
  | cons c cs ih =>
    rw [List.flatMap_cons]
    exact (units_append c _).2 ih

/-- Well-formed units are those of the characters that they stand for. -/
theorem units_decode {us : List Nat} (h : WellFormed us) : (decode us).flatMap units = us := by
  induction h with
  | nil => rfl
  | @one u us hu _ ih =>
    have hn : (Char.ofNat u).toNat = u :=
      Utf8.toNat_ofNat (by unfold Nat.isValidChar; omega)
    rw [decode_one (by omega), List.flatMap_cons, ih, units, hn, if_pos (by omega),
      List.singleton_append]
  | @pair u v us hu hv _ ih =>
    have hn := Utf8.toNat_ofNat (n := 0x10000 + (u - 0xD800) * 0x400 + (v - 0xDC00))
      (by unfold Nat.isValidChar; omega)
    have hn : (Char.ofNat (0x10000 + (u - 0xD800) * 0x400 + (v - 0xDC00))).toNat =
      0x10000 + (u - 0xD800) * 0x400 + (v - 0xDC00) := hn
    rw [decode_pair hu hv, List.flatMap_cons, ih, units, hn, if_neg (by omega)]
    simp only [List.cons_append, List.nil_append, List.cons.injEq, and_true]
    omega

theorem wellFormed_iff (us : List Nat) :
    WellFormed us ↔ (decode us).flatMap units = us :=
  ⟨units_decode, fun h => h ▸ wellFormed_units _⟩

theorem units_lt {c : Char} {u : Nat} (h : u ∈ units c) : u < 0x10000 := by
  have hc := toNat_cases c
  rw [units] at h
  split at h
  · obtain rfl := List.mem_singleton.1 h
    assumption
  · simp only [List.mem_cons, List.not_mem_nil, or_false] at h
    omega

/-- A character has no more units than bytes. -/
theorem length_units_le (c : Char) : (units c).length ≤ 1 * c.utf8Size := by
  have hpos := c.utf8Size_pos
  rw [units]
  split
  · simp only [List.length_cons, List.length_nil]
    omega
  · rename_i hc
    have hone : c.utf8Size ≠ 1 := fun h => by
      have h := Char.utf8Size_eq_one_iff.1 h
      rw [UInt32.le_iff_toNat_le] at h
      exact hc (Nat.lt_of_le_of_lt h (by decide))
    simp only [List.length_cons, List.length_nil]
    omega

theorem length_units_byte_le (b : UInt8) : (units (Char.ofNat b.toNat)).length ≤ 1 := by
  have hb := b.toNat_lt
  have hle := Utf8.toNat_ofNat_le b.toNat
  rw [units, if_pos (by omega)]
  exact Nat.le_refl 1

theorem ofBytes_lt {bs : Bytes} {u : Nat} (h : u ∈ ofBytes bs) : u < 0x10000 := by
  fun_induction ofBytes bs with
  | case1 low high r ih =>
    rcases List.mem_cons.1 h with rfl | h
    · have hlow := low.toNat_lt
      have hhigh := high.toNat_lt
      omega
    · exact ih h
  | case2 => cases h

theorem ofBytes_unitBytes {us : List Nat} (h : ∀ u ∈ us, u < 0x10000) :
    ofBytes (us.flatMap unitBytes) = us := by
  induction us with
  | nil => rfl
  | cons u us ih =>
    have hu := h u List.mem_cons_self
    have hlow : (UInt8.ofNat (u % 256)).toNat = u % 256 := by simp
    have hhigh : (UInt8.ofNat (u / 256)).toNat = u / 256 := by simp; omega
    have hrest := ih fun v hv => h v (List.mem_cons_of_mem u hv)
    rw [List.flatMap_cons, unitBytes, List.cons_append, List.singleton_append, ofBytes, hlow,
      hhigh, hrest, Nat.mod_add_div]

theorem length_flatMap_unitBytes (us : List Nat) :
    (us.flatMap unitBytes).length = 2 * us.length := by
  induction us with
  | nil => rfl
  | cons u us ih =>
    rw [List.flatMap_cons, List.length_append, ih, List.length_cons]
    change 2 + _ = _
    omega

theorem unitBytes_ofBytes {bs : Bytes} (h : bs.length % 2 = 0) :
    (ofBytes bs).flatMap unitBytes = bs := by
  fun_induction ofBytes bs with
  | case1 low high r ih =>
    have hlow := low.toNat_lt
    have hr : r.length % 2 = 0 := by simp only [List.length_cons] at h; omega
    have hmod : (low.toNat + 256 * high.toNat) % 256 = low.toNat := by omega
    have hdiv : (low.toNat + 256 * high.toNat) / 256 = high.toNat := by omega
    rw [List.flatMap_cons, ih hr, unitBytes, hmod, hdiv, UInt8.ofNat_toNat, UInt8.ofNat_toNat]
    rfl
  | case2 bs hbs =>
    match bs, hbs with
    | [], _ => rfl
    | [b], _ => simp at h
    | low :: high :: r, hbs => exact absurd rfl (hbs low high r)

/-- Reading units makes at most three bytes of text for each. -/
theorem sum_decode_le {us : List Nat} (h : ∀ u ∈ us, u < 0x10000) :
    ((decode us).map Char.utf8Size).sum ≤ 3 * us.length := by
  have hmark : '\uFFFD'.utf8Size = 3 := by decide
  fun_induction decode us with
  | case1 => simp
  | case2 u =>
    have hu := Utf8.utf8Size_le_three
      (Nat.lt_of_le_of_lt (Utf8.toNat_ofNat_le u) (h u List.mem_cons_self))
    split <;> simp only [List.map_cons, List.map_nil, List.sum_cons, List.sum_nil, List.length_cons,
      List.length_nil] <;> omega
  | case3 u v r _ _ ih =>
    have hr := ih fun x hx => h x (List.mem_cons_of_mem u (List.mem_cons_of_mem v hx))
    have hfour := Char.utf8Size_le_four (Char.ofNat (0x10000 + (u - 0xD800) * 0x400 + (v - 0xDC00)))
    simp only [List.map_cons, List.sum_cons, List.length_cons]
    omega
  | case4 u v r _ _ ih | case5 u v r _ _ ih =>
    have hr := ih fun x hx => h x (List.mem_cons_of_mem u hx)
    simp only [List.map_cons, List.sum_cons, List.length_cons] at hr ⊢
    omega
  | case6 u v r _ _ ih =>
    have hr := ih fun x hx => h x (List.mem_cons_of_mem u hx)
    have hu := Utf8.utf8Size_le_three
      (Nat.lt_of_le_of_lt (Utf8.toNat_ofNat_le u) (h u List.mem_cons_self))
    simp only [List.map_cons, List.sum_cons, List.length_cons] at hr ⊢
    omega

theorem length_ofBytes (bs : Bytes) : 2 * (ofBytes bs).length ≤ bs.length := by
  fun_induction ofBytes bs with
  | case1 low high r ih =>
    simp only [List.length_cons]
    omega
  | case2 => simp

end Utf16

/-! ### The codecs -/

namespace Codec

variable {codec : Codec}

theorem map_eq_self_iff {α : Type} {f : α → α} {l : List α} :
    l.map f = l ↔ ∀ a ∈ l, f a = a := by
  simpa using List.map_eq_map_iff (f := f) (l := l) (g := id)

/-- The character has bytes of its own in the encoding. -/
def Represents : Codec → Char → Prop
  | .latin1, c => c.toNat ≤ 0xFF
  | .ascii, c => c.toNat ≤ 0x7F
  | .utf8, _ | .identity, _ | .unicode, _ => True

/-- The bytes are what the codec writes for some text. -/
def Regular : Codec → Bytes → Prop
  | .utf8, bs => Utf8.WellFormed bs
  | .ascii, bs => ∀ b ∈ bs, b ≤ 0x7F
  | .unicode, bs => bs.length % 2 = 0 ∧ Utf16.WellFormed (Utf16.ofBytes bs)
  | .latin1, _ | .identity, _ => True

/-- What a character is read back as. -/
def kept : Codec → Char → Char
  | .latin1, c => if c.toNat < 256 then c else '?'
  | .ascii, c => if c.toNat < 128 then c else '?'
  | .utf8, c | .identity, c | .unicode, c => c

/-- The bytes of characters in the encoding; `identity` has no characters. -/
def written : Codec → List Char → Bytes
  | .utf8, cs => Utf8.encodeChars cs
  | .latin1, cs => cs.map fun c => if c.toNat < 256 then UInt8.ofNat c.toNat else 0x3F
  | .ascii, cs => cs.map fun c => if c.toNat < 128 then UInt8.ofNat c.toNat else 0x3F
  | .identity, _ => []
  | .unicode, cs => (cs.flatMap Utf16.units).flatMap Utf16.unitBytes

theorem kept_eq_iff (codec : Codec) (c : Char) : codec.kept c = c ↔ codec.Represents c := by
  have hmark : '?'.toNat = 63 := rfl
  cases codec with
  | latin1 | ascii =>
    rw [kept, Represents]
    split
    · exact iff_of_true rfl (by omega)
    · refine iff_of_false (fun h => ?_) (by omega)
      subst h
      omega
  | utf8 | identity | unicode => exact iff_of_true rfl trivial

/-- What is written for characters is read as what is kept of them. -/
theorem characters_written (h : codec ≠ .identity) (cs : List Char) :
    codec.characters (codec.written cs) = cs.map codec.kept := by
  cases codec with
  | identity => exact absurd rfl h
  | utf8 =>
    rw [written, characters, Utf8.decodeLenient_encodeChars]
    exact (List.map_id' cs).symm
  | latin1 =>
    rw [written, characters, List.map_map]
    refine List.map_congr_left fun c _ => ?_
    rw [Function.comp_apply, kept]
    split
    · have hc : (UInt8.ofNat c.toNat).toNat = c.toNat := by simp; omega
      rw [hc, Char.ofNat_toNat]
    · rfl
  | ascii =>
    rw [written, characters, List.map_map]
    refine List.map_congr_left fun c _ => ?_
    rw [Function.comp_apply, kept]
    split
    · have hc : (UInt8.ofNat c.toNat).toNat = c.toNat := by simp; omega
      have hlt : UInt8.ofNat c.toNat < 0x80 := by
        rw [UInt8.lt_iff_toNat_lt, hc]
        assumption
      rw [if_pos hlt, hc, Char.ofNat_toNat]
    · rfl
  | unicode =>
    have hlt : ∀ u ∈ cs.flatMap Utf16.units, u < 0x10000 := fun u hu => by
      obtain ⟨c, _, hu⟩ := List.mem_flatMap.1 hu
      exact Utf16.units_lt hu
    rw [written, characters, Utf16.ofBytes_unitBytes hlt, Utf16.decode_units]
    exact (List.map_id' cs).symm

/-- Bytes are written for what is read off them just if the codec writes such bytes. -/
theorem written_characters_iff (h : codec ≠ .identity) (bs : Bytes) :
    codec.written (codec.characters bs) = bs ↔ codec.Regular bs := by
  cases codec with
  | identity => exact absurd rfl h
  | utf8 =>
    rw [written, characters, Regular]
    constructor
    · intro hbs
      rw [← hbs]
      exact Utf8.wellFormed_encodeChars _
    · rintro ⟨s, rfl⟩
      rw [Utf8.decodeLenient_encode, Utf8.encode]
  | latin1 =>
    refine iff_of_true ?_ trivial
    rw [written, characters, List.map_map]
    refine (List.map_congr_left fun b _ => ?_).trans (List.map_id _)
    have hb := b.toNat_lt
    have hpoint : (Char.ofNat b.toNat).toNat = b.toNat :=
      Utf8.toNat_ofNat (by unfold Nat.isValidChar; omega)
    rw [Function.comp_apply, hpoint, if_pos (by omega), UInt8.ofNat_toNat, id_eq]
  | ascii =>
    rw [written, characters, Regular, List.map_map]
    have hbyte : ∀ b : UInt8, ((fun c : Char => if c.toNat < 128 then UInt8.ofNat c.toNat
        else 0x3F) ∘ fun b : UInt8 => if b < 0x80 then Char.ofNat b.toNat else '?') b = b ↔
          b ≤ 0x7F :=
      Utf8.forall_byte (by decide +kernel)
    rw [map_eq_self_iff]
    exact forall₂_congr fun b _ => hbyte b
  | unicode =>
    rw [written, characters, Regular]
    constructor
    · intro hbs
      have hlt : ∀ u ∈ (Utf16.decode (Utf16.ofBytes bs)).flatMap Utf16.units, u < 0x10000 :=
        fun u hu => by
          obtain ⟨c, _, hu⟩ := List.mem_flatMap.1 hu
          exact Utf16.units_lt hu
      have hlen := Utf16.length_flatMap_unitBytes
        ((Utf16.decode (Utf16.ofBytes bs)).flatMap Utf16.units)
      have hunits := Utf16.ofBytes_unitBytes hlt
      rw [hbs] at hlen hunits
      exact ⟨by omega, (Utf16.wellFormed_iff _).2 hunits.symm⟩
    · rintro ⟨heven, hunits⟩
      rw [Utf16.units_decode hunits, Utf16.unitBytes_ofBytes heven]

/-! ### Output in full -/

/-- The capacity takes all pieces. -/
def Fits (capacity : Nat) (pieces : List Bytes) : Prop :=
  pieces.flatten.length ≤ capacity

/-- What fits is written in full. -/
theorem within_of_fits {capacity : Nat} {pieces : List Bytes} (h : Fits capacity pieces) :
    within capacity pieces = pieces.flatten := by
  induction pieces generalizing capacity with
  | nil => rfl
  | cons piece pieces ih =>
    rw [Fits, List.flatten_cons, List.length_append] at h
    have hrest : Fits (capacity - piece.length) pieces := by rw [Fits]; omega
    rw [within, if_pos (by omega), ih hrest, List.flatten_cons]

theorem flatten_singletons {α : Type} {f : α → UInt8} (l : List α) :
    (l.map fun a => [f a]).flatten = l.map f := by
  rw [← List.flatMap_def]
  exact List.flatMap_pure_eq_map f l

theorem flatten_piecesOfText (h : codec ≠ .identity) (src : Bytes) :
    (codec.piecesOfText src).flatten = codec.written (Utf8.decodeLenient src) := by
  cases codec with
  | identity => exact absurd rfl h
  | utf8 => rw [piecesOfText, written, Utf8.encodeChars, List.flatMap_def]
  | latin1 | ascii => exact flatten_singletons _
  | unicode => rw [piecesOfText, written, ← List.flatMap_def]

theorem flatten_piecesToText (h : codec ≠ .identity) (src : Bytes) :
    (codec.piecesToText src).flatten = Utf8.encodeChars (codec.characters src) := by
  cases codec with
  | identity => exact absurd rfl h
  | utf8 | latin1 | ascii | unicode =>
    simp only [piecesToText, Utf8.encodeChars, List.flatMap_def]

theorem flatten_identity (src : Bytes) :
    (piecesOfText .identity src).flatten = src ∧ (piecesToText .identity src).flatten = src := by
  have hsrc : (src.map fun b => [b]).flatten = src := by
    rw [flatten_singletons, List.map_id']
  exact ⟨hsrc, hsrc⟩

/-- Encoding makes no more than two bytes of one. -/
theorem fits_piecesOfText (codec : Codec) (src : Bytes) :
    Fits (2 * src.length) (codec.piecesOfText src) := by
  rw [Fits]
  by_cases hcodec : codec = .identity
  · subst hcodec
    rw [(flatten_identity src).1]
    omega
  · rw [flatten_piecesOfText hcodec]
    cases codec with
    | identity => exact absurd rfl hcodec
    | utf8 =>
      rw [written, Utf8.length_encodeChars]
      exact Utf8.sum_decodeLenient_le (fun c => by omega) Utf8.utf8Size_byte_le src
    | latin1 | ascii =>
      have hone := Utf8.sum_decodeLenient_le (f := fun _ => 1) (k := 1)
        (fun c => by have := c.utf8Size_pos; omega) (fun _ => by omega) src
      rw [List.map_const', List.sum_replicate_nat] at hone
      rw [written, List.length_map]
      omega
    | unicode =>
      have hunits := Utf8.sum_decodeLenient_le Utf16.length_units_le Utf16.length_units_byte_le src
      rw [written, Utf16.length_flatMap_unitBytes, List.length_flatMap]
      omega

theorem sum_map_le {f : UInt8 → Nat} {k : Nat} (h : ∀ b, f b ≤ k) (src : Bytes) :
    (src.map f).sum ≤ k * src.length := by
  induction src with
  | nil => simp
  | cons b r ih =>
    rw [List.map_cons, List.sum_cons, List.length_cons, Nat.mul_succ, Nat.add_comm]
    exact Nat.add_le_add ih (h b)

/-- Decoding makes no more than two bytes of one. -/
theorem fits_piecesToText (codec : Codec) (src : Bytes) :
    Fits (2 * src.length) (codec.piecesToText src) := by
  rw [Fits]
  by_cases hcodec : codec = .identity
  · subst hcodec
    rw [(flatten_identity src).2]
    omega
  · rw [flatten_piecesToText hcodec, Utf8.length_encodeChars]
    cases codec with
    | identity => exact absurd rfl hcodec
    | utf8 => exact Utf8.sum_decodeLenient_le (fun c => by omega) Utf8.utf8Size_byte_le src
    | latin1 =>
      rw [characters, List.map_map]
      exact sum_map_le Utf8.utf8Size_byte_le src
    | ascii =>
      rw [characters, List.map_map]
      refine sum_map_le (fun b => ?_) src
      rw [Function.comp_apply]
      split
      · exact Utf8.utf8Size_byte_le b
      · decide
    | unicode =>
      have hlt : ∀ u ∈ Utf16.ofBytes src, u < 0x10000 := fun _ => Utf16.ofBytes_lt
      have hsum := Utf16.sum_decode_le hlt
      have hlen := Utf16.length_ofBytes src
      rw [characters]
      omega

/-- **Codecs go there and back.**  With room for the whole output, a text is the same
afterwards just if the codec represents all its characters, and bytes are the same just if
the codec writes such bytes.  Twice the length of the input is always room enough. -/
theorem there_and_back (codec : Codec) (m n : Nat) :
    (∀ s : String, Fits m (codec.piecesOfText (Utf8.encode s)) →
      Fits n (codec.piecesToText (codec.ofText m (Utf8.encode s))) →
      (codec.toText n (codec.ofText m (Utf8.encode s)) = Utf8.encode s ↔
        ∀ c ∈ s.toList, codec.Represents c)) ∧
    (∀ bs : Bytes, Fits n (codec.piecesToText bs) →
      Fits m (codec.piecesOfText (codec.toText n bs)) →
      (codec.ofText m (codec.toText n bs) = bs ↔ codec.Regular bs)) ∧
    ∀ src : Bytes, Fits (2 * src.length) (codec.piecesOfText src) ∧
      Fits (2 * src.length) (codec.piecesToText src) := by
  refine ⟨fun s hm hn => ?_, fun bs hn hm => ?_, fun src =>
    ⟨codec.fits_piecesOfText src, codec.fits_piecesToText src⟩⟩
  · rw [toText, within_of_fits hn, ofText, within_of_fits hm]
    by_cases hcodec : codec = .identity
    · subst hcodec
      rw [(flatten_identity _).1, (flatten_identity _).2]
      exact iff_of_true rfl fun _ _ => trivial
    · rw [flatten_piecesOfText hcodec, Utf8.decodeLenient_encode, flatten_piecesToText hcodec,
        characters_written hcodec, Utf8.encode, Utf8.encodeChars_inj, map_eq_self_iff]
      exact forall₂_congr fun c _ => codec.kept_eq_iff c
  · rw [ofText, within_of_fits hm, toText, within_of_fits hn]
    by_cases hcodec : codec = .identity
    · subst hcodec
      rw [(flatten_identity _).2, (flatten_identity _).1]
      exact iff_of_true rfl trivial
    · rw [flatten_piecesToText hcodec, flatten_piecesOfText hcodec,
        Utf8.decodeLenient_encodeChars]
      exact written_characters_iff hcodec bs

end Codec
end CommandBridge
