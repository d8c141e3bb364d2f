/-
# Byte positions in a text

A text is taken apart at byte positions: `charsFrom?` gives what stands from a position on,
`charsTo?` what stands before one, and `slice?` what stands between two.  There is something
to give only if the position is in range and no character goes across it
(`isSome_charsFrom?_iff`).

A scanner goes from byte to byte and takes a byte for the character of the same code, which
is what it asks for as long as it asks for ASCII characters: where a character starts, its
first byte answers for it, and no other byte of it is ever taken for ASCII
(`StandsAt.byte?_cons`, `StandsAt.byte?_inside`).
-/

import Mathlib.Data.List.TakeWhile
import CommandBridge.Proofs.Bytes.Repair

namespace CommandBridge
namespace Utf8

variable {text cs rest front : List Char} {c : Char} {p : Nat}

/-! ### Taking a text apart -/

/-- How many bytes characters take. -/
def width (cs : List Char) : Nat :=
  (encodeChars cs).length

@[simp] theorem width_nil : width [] = 0 := rfl

@[simp] theorem width_cons (c : Char) (cs : List Char) :
    width (c :: cs) = c.utf8Size + width cs := by
  rw [width, encodeChars, List.flatMap_cons, List.length_append, String.length_utf8EncodeChar]
  rfl

@[simp] theorem width_append (cs ds : List Char) : width (cs ++ ds) = width cs + width ds := by
  rw [width, encodeChars, List.flatMap_append, List.length_append]
  rfl

/-- The characters from byte `n` on. -/
def charsFrom? : List Char → Nat → Option (List Char)
  | cs, 0 => some cs
  | [], _ + 1 => none
  | c :: cs, n + 1 => if c.utf8Size ≤ n + 1 then charsFrom? cs (n + 1 - c.utf8Size) else none

/-- The characters before byte `n`. -/
def charsTo? : List Char → Nat → Option (List Char)
  | _, 0 => some []
  | [], _ + 1 => none
  | c :: cs, n + 1 =>
    if c.utf8Size ≤ n + 1 then (charsTo? cs (n + 1 - c.utf8Size)).map (c :: ·) else none

/-- The characters between two bytes. -/
def slice? (text : List Char) (a b : Nat) : Option (List Char) :=
  if a ≤ b then (charsFrom? text a).bind fun cs => charsTo? cs (b - a) else none

theorem charsFrom?_append (front rest : List Char) :
    charsFrom? (front ++ rest) (width front) = some rest := by
  induction front with
  | nil => rw [List.nil_append, width_nil, charsFrom?]
  | cons c front ih =>
    have hc := c.utf8Size_pos
    obtain ⟨n, hn⟩ : ∃ n, width (c :: front) = n + 1 := ⟨width (c :: front) - 1, by simp; omega⟩
    rw [List.cons_append, hn, charsFrom?, ← hn, width_cons, if_pos (Nat.le_add_right _ _),
      Nat.add_sub_cancel_left]
    exact ih

theorem charsTo?_append (front rest : List Char) :
    charsTo? (front ++ rest) (width front) = some front := by
  induction front with
  | nil => rw [List.nil_append, width_nil, charsTo?]
  | cons c front ih =>
    have hc := c.utf8Size_pos
    obtain ⟨n, hn⟩ : ∃ n, width (c :: front) = n + 1 := ⟨width (c :: front) - 1, by simp; omega⟩
    rw [List.cons_append, hn, charsTo?, ← hn, width_cons, if_pos (Nat.le_add_right _ _),
      Nat.add_sub_cancel_left, ih]
    rfl

/-- At byte `p` the text goes on with `cs`. -/
def StandsAt (text : List Char) (p : Nat) (cs : List Char) : Prop :=
  ∃ front, text = front ++ cs ∧ p = width front

/-- **A text can be taken apart where a character starts or the text ends.** -/
theorem charsFrom?_eq_some_iff : charsFrom? text p = some cs ↔ StandsAt text p cs := by
  constructor
  · intro h
    fun_induction charsFrom? text p with
    | case1 text => exact ⟨[], (Option.some.inj h).symm ▸ rfl, rfl⟩
    | case2 => cases h
    | case3 c text n hle ih =>
      obtain ⟨front, rfl, hn⟩ := ih h
      exact ⟨c :: front, rfl, by rw [width_cons]; omega⟩
    | case4 => cases h
  · rintro ⟨front, rfl, rfl⟩
    exact charsFrom?_append front cs

theorem charsFrom?_one (hc : c.utf8Size = 1) (cs : List Char) :
    charsFrom? (c :: cs) 1 = some cs :=
  charsFrom?_eq_some_iff.2 ⟨[c], rfl, by simp [hc]⟩

theorem width_toList (s : String) : width s.toList = s.utf8ByteSize := by
  rw [← String.size_toByteArray, ← String.utf8Encode_toList, List.utf8Encode,
    List.size_toByteArray]
  rfl

/-- The positions at which a text can be taken apart are the valid ones. -/
theorem isSome_charsFrom?_iff (s : String) (p : Nat) :
    (charsFrom? s.toList p).isSome = true ↔ (⟨p⟩ : String.Pos.Raw).IsValid s := by
  rw [Option.isSome_iff_exists, String.Pos.Raw.isValid_iff_exists_append]
  simp only [charsFrom?_eq_some_iff, StandsAt, String.Pos.Raw.ext_iff]
  constructor
  · rintro ⟨cs, front, hs, rfl⟩
    refine ⟨String.ofList front, String.ofList cs, ?_, ?_⟩
    · rw [← String.ofList_append, ← hs, String.ofList_toList]
    · rw [String.byteIdx_rawEndPos, ← width_toList, String.toList_ofList]
  · rintro ⟨s₁, s₂, rfl, hp⟩
    exact ⟨s₂.toList, s₁.toList, String.toList_append, by rw [hp, width_toList]; rfl⟩

namespace StandsAt

theorem zero (text : List Char) : StandsAt text 0 text :=
  ⟨[], rfl, rfl⟩

theorem append (h : StandsAt text p (front ++ rest)) : StandsAt text (p + width front) rest := by
  obtain ⟨before, rfl, rfl⟩ := h
  exact ⟨before ++ front, (List.append_assoc ..).symm, (width_append ..).symm⟩

theorem next (h : StandsAt text p (c :: cs)) : StandsAt text (p + c.utf8Size) cs := by
  have happ : StandsAt text p ([c] ++ cs) := h
  simpa using happ.append

theorem add_width (h : StandsAt text p cs) : p + width cs = width text := by
  obtain ⟨before, rfl, rfl⟩ := h
  exact (width_append ..).symm

theorem charsFrom? (h : StandsAt text p cs) : Utf8.charsFrom? text p = some cs :=
  charsFrom?_eq_some_iff.2 h

/-- What stands at the position can be cut off in front of the rest. -/
theorem slice? (h : StandsAt text p (front ++ rest)) :
    Utf8.slice? text p (p + width front) = some front := by
  rw [Utf8.slice?, if_pos (Nat.le_add_right _ _), h.charsFrom?, Nat.add_sub_cancel_left]
  exact charsTo?_append front rest

end StandsAt

/-! ### Looking at bytes -/

/-- A test that no character above ASCII passes. -/
def Ascii (P : Char → Bool) : Prop :=
  ∀ c, 0x80 ≤ c.toNat → P c = false

namespace Ascii

theorem or {P Q : Char → Bool} (hP : Ascii P) (hQ : Ascii Q) : Ascii fun c => P c || Q c :=
  fun c hc => Bool.or_eq_false_iff.2 ⟨hP c hc, hQ c hc⟩

theorem and (a : Bool) {P : Char → Bool} (hP : Ascii P) : Ascii fun c => a && P c :=
  fun c hc => Bool.and_eq_false_iff.2 (.inr (hP c hc))

theorem lt {P : Char → Bool} (hP : Ascii P) (h : P c = true) : c.toNat < 0x80 :=
  Nat.not_le.1 fun hc => ne_true_of_eq_false (hP c hc) h

theorem beq {a : Char} (ha : a.toNat < 0x80) : Ascii (· == a) :=
  fun c hc => beq_eq_false_iff_ne.2 (by rintro rfl; omega)

end Ascii

theorem utf8Size_of_ascii (h : c.toNat < 0x80) : c.utf8Size = 1 :=
  String.length_utf8EncodeChar c ▸ (length_encodeChar_eq_one_iff c).2 h

theorem width_of_ascii (h : ∀ c ∈ cs, c.toNat < 0x80) : width cs = cs.length := by
  induction cs with
  | nil => rfl
  | cons c cs ih =>
    rw [width_cons, utf8Size_of_ascii (h c List.mem_cons_self),
      ih fun d hd => h d (List.mem_cons_of_mem c hd), List.length_cons, Nat.add_comm]

theorem Ascii.width_takeWhile {P : Char → Bool} (hP : Ascii P) (cs : List Char) :
    width (cs.takeWhile P) = (cs.takeWhile P).length :=
  width_of_ascii fun _ hc => hP.lt (List.mem_takeWhile_imp hc)

/-- The bytes of characters, each as the character of the same code. -/
def byteChars (cs : List Char) : List Char :=
  (encodeChars cs).map fun b => Char.ofNat b.toNat

/-- The byte at a position, as the character of the same code. -/
def byte? (text : List Char) (p : Nat) : Option Char :=
  (byteChars text)[p]?

theorem length_byteChars (cs : List Char) : (byteChars cs).length = width cs :=
  List.length_map _

theorem byteChars_append (cs ds : List Char) :
    byteChars (cs ++ ds) = byteChars cs ++ byteChars ds := by
  rw [byteChars, encodeChars, List.flatMap_append, List.map_append]
  rfl

theorem lt_width_of_byte? {b : Char} (h : byte? text p = some b) : p < width text :=
  length_byteChars text ▸ (List.getElem?_eq_some_iff.1 h).1

theorem byte?_eq_none_iff : byte? text p = none ↔ width text ≤ p := by
  rw [byte?, List.getElem?_eq_none_iff, length_byteChars]

/-- The first byte of a character answers for it, and the other bytes are no ASCII. -/
theorem exists_first (c : Char) (cs : List Char) : ∃ b more,
    byteChars (c :: cs) = b :: (more ++ byteChars cs) ∧ more.length + 1 = c.utf8Size ∧
      (∀ P, Ascii P → P b = P c) ∧ ∀ b' ∈ more, 0x80 ≤ b'.toNat := by
  obtain ⟨b, more, hb, -, hmore⟩ := exists_lead c
  refine ⟨Char.ofNat b.toNat, more.map fun b => Char.ofNat b.toNat, ?_, ?_, fun P hP => ?_, ?_⟩
  · rw [byteChars, encodeChars, List.flatMap_cons, hb, List.cons_append, List.map_cons,
      List.map_append]
    rfl
  · rw [← String.length_utf8EncodeChar, hb, List.length_map, List.length_cons]
  · by_cases hc : c.toNat < 0x80
    · obtain ⟨rfl, -⟩ := List.cons.inj ((encodeChar_of_ascii hc).symm.trans hb)
      rw [UInt8.toNat_ofNat', Nat.mod_eq_of_lt (by omega), Char.ofNat_toNat]
    · have hfirst : 0x80 ≤ b.toNat := by
        by_contra hlow
        obtain ⟨b', more', ranges, hb', hranges, hmore', -⟩ := exists_parts c
        obtain ⟨rfl, rfl⟩ := List.cons.inj (hb.symm.trans hb')
        rw [followers?_one b (Nat.not_le.1 hlow)] at hranges
        obtain rfl := Option.some.inj hranges
        cases hmore'
        exact hc ((length_encodeChar_eq_one_iff c).1 (by rw [hb]; rfl))
      rw [hP c (Nat.not_lt.1 hc), hP _ (by rwa [toNat_ofNat_byte])]
  · intro b' hb'
    obtain ⟨b'', hmem, rfl⟩ := List.mem_map.1 hb'
    rw [toNat_ofNat_byte]
    exact ((isContinuation_iff b'').1 (hmore b'' hmem)).1

/-- **Among the bytes a test for ASCII characters finds what it finds among the characters.** -/
theorem takeWhile_take_byteChars {P : Char → Bool} (hP : Ascii P) (n : Nat) (cs : List Char) :
    ((byteChars cs).take n).takeWhile P = (cs.take n).takeWhile P := by
  induction cs generalizing n with
  | nil => rfl
  | cons c cs ih =>
    obtain ⟨b, more, hbytes, hlen, hfirst, -⟩ := exists_first c cs
    cases n with
    | zero => rfl
    | succ n =>
      rw [hbytes, List.take_succ_cons, List.take_succ_cons, List.takeWhile_cons,
        List.takeWhile_cons, hfirst P hP]
      split
      · rename_i hc
        have hc := hP.lt hc
        obtain rfl : b = c := beq_iff_eq.1 ((hfirst _ (.beq hc)).trans (beq_self_eq_true c))
        obtain rfl := List.length_eq_zero_iff.1
          (Nat.succ.inj (hlen.trans (utf8Size_of_ascii hc)))
        rw [List.nil_append, ih]
      · rfl

/-- The first byte that passes a test for ASCII characters is found behind the characters that
fail it. -/
theorem findIdx?_byteChars {P : Char → Bool} (hP : Ascii P) (cs : List Char) :
    (byteChars cs).findIdx? P =
      if cs.any P then some (width (cs.takeWhile fun c => !P c)) else none := by
  induction cs with
  | nil => rfl
  | cons c cs ih =>
    obtain ⟨b, more, hbytes, hlen, hfirst, hmore⟩ := exists_first c cs
    have hnone : more.findIdx? P = none :=
      List.findIdx?_eq_none_iff.2 fun b' hb' => hP b' (hmore b' hb')
    rw [hbytes, List.findIdx?_cons, hfirst P hP, List.any_cons, List.takeWhile_cons]
    cases P c with
    | true => rfl
    | false =>
      rw [List.findIdx?_append, hnone, ih]
      cases cs.any P with
      | true =>
        have hadd : width (cs.takeWhile fun c => !P c) + more.length + 1 =
            width (c :: cs.takeWhile fun c => !P c) := by
          rw [width_cons]
          omega
        exact congrArg some hadd
      | false => rfl

theorem length_le_width (cs : List Char) : cs.length ≤ width cs := by
  induction cs with
  | nil => exact Nat.le_refl 0
  | cons c cs ih =>
    have hc := c.utf8Size_pos
    rw [List.length_cons, width_cons]
    omega

theorem takeWhile_byteChars {P : Char → Bool} (hP : Ascii P) (cs : List Char) :
    (byteChars cs).takeWhile P = cs.takeWhile P := by
  have htake := takeWhile_take_byteChars hP (width cs) cs
  rwa [List.take_of_length_le (Nat.le_of_eq (length_byteChars cs)),
    List.take_of_length_le (length_le_width cs)] at htake

namespace StandsAt

theorem getElem?_add (h : StandsAt text p cs) (k : Nat) :
    (byteChars text)[p + k]? = (byteChars cs)[k]? := by
  obtain ⟨before, rfl, rfl⟩ := h
  rw [byteChars_append, ← length_byteChars before,
    List.getElem?_append_right (Nat.le_add_right _ _), Nat.add_sub_cancel_left]

theorem byte?_nil (h : StandsAt text p []) : byte? text p = none :=
  h.getElem?_add 0

/-- The first byte of a character answers for it. -/
theorem byte?_cons (h : StandsAt text p (c :: cs)) :
    ∃ b, byte? text p = some b ∧ ∀ P, Ascii P → P b = P c := by
  obtain ⟨b, more, hbytes, -, hfirst, -⟩ := exists_first c cs
  exact ⟨b, (h.getElem?_add 0).trans (by rw [hbytes]; rfl), hfirst⟩

/-- A test of the byte at a position tests the character that stands there. -/
theorem all_byte? {P : Char → Bool} (hP : Ascii P) (h : StandsAt text p cs) :
    (byte? text p).all P = cs.head?.all P := by
  cases cs with
  | nil =>
    rw [h.byte?_nil]
    rfl
  | cons c cs =>
    obtain ⟨b, hb, hsame⟩ := h.byte?_cons
    rw [hb, List.head?_cons, Option.all_some, Option.all_some, hsame P hP]

theorem byte?_eq_some_iff {a : Char} (ha : a.toNat < 0x80) (h : StandsAt text p cs) :
    byte? text p = some a ↔ cs.head? = some a := by
  cases cs with
  | nil =>
    rw [h.byte?_nil]
    exact Iff.rfl
  | cons c cs =>
    obtain ⟨b, hb, hsame⟩ := h.byte?_cons
    have hiff : b = a ↔ c = a := by
      rw [← beq_iff_eq, hsame _ (.beq ha), beq_iff_eq]
    rwa [hb, List.head?_cons, Option.some_inj, Option.some_inj]

/-- The other bytes of a character are no ASCII. -/
theorem byte?_inside (h : StandsAt text p (c :: cs)) {k : Nat} (hk : 0 < k)
    (hk' : k < c.utf8Size) : ∃ b, byte? text (p + k) = some b ∧ 0x80 ≤ b.toNat := by
  obtain ⟨b, more, hbytes, hlen, -, hmore⟩ := exists_first c cs
  obtain ⟨k, rfl⟩ := Nat.exists_eq_succ_of_ne_zero (Nat.ne_of_gt hk)
  have hlt : k < more.length := by omega
  refine ⟨more[k], ?_, hmore _ (List.getElem_mem _)⟩
  rw [byte?, h.getElem?_add, hbytes, List.getElem?_cons_succ, List.getElem?_append_left hlt,
    List.getElem?_eq_getElem hlt]

/-- What passes over bytes that are no ASCII passes over what is left of a character. -/
theorem skip {α : Type} {f : Nat → α}
    (hf : ∀ q b, byte? text q = some b → 0x80 ≤ b.toNat → f q = f (q + 1))
    (h : StandsAt text p (c :: cs)) : f (p + 1) = f (p + c.utf8Size) := by
  have hskip (k : Nat) (hk : k + 1 ≤ c.utf8Size) : f (p + 1) = f (p + (k + 1)) := by
    induction k with
    | zero => rfl
    | succ k ih =>
      obtain ⟨b, hb, hhigh⟩ := h.byte?_inside (Nat.succ_pos k) hk
      exact (ih (Nat.le_of_succ_le hk)).trans (hf _ b hb hhigh)
  have hc := c.utf8Size_pos
  obtain ⟨k, hk⟩ := Nat.exists_eq_succ_of_ne_zero (Nat.ne_of_gt hc)
  rw [hk]
  exact hskip k (Nat.le_of_eq hk.symm)

end StandsAt

end Utf8
end CommandBridge
