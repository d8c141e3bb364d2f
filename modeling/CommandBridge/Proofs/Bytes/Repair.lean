/-
# Malformed text is repaired byte by byte

Text is read leniently from left to right, and a byte at which no well-formed character
starts stands for the code point of its value.  What becomes of a byte depends on its
surroundings all the same, and not on where reading began.  A character has its lead byte at
the start only (`exists_lead`), so characters do not overlap, and reading falls apart at
every border that no character crosses (`decodeLenient_append`).  Hence a well-formed
character is kept wherever it stands (`decodeLenient_character`), and a byte that belongs to
none of them becomes a character by itself (`decodeLenient_stray`).

With that, the `utf8` codec is a repair: what it writes is always well-formed
(`wellFormed_toText`), and it leaves alone what is well-formed already
(`toText_of_wellFormed`).
-/

import CommandBridge.Proofs.Bytes.Bounded

namespace CommandBridge
namespace Utf8

variable {before after xs ys : Bytes} {b : UInt8} {c : Char}

/-! ### Borders -/

/-- A lead byte is no continuation byte. -/
theorem isContinuation_of_followers? : ∀ a : UInt8, (followers? a).isSome = true →
    isContinuation a = false :=
  forall_byte (by decide +kernel)

/-- A character starts with its lead byte and goes on with continuation bytes. -/
theorem exists_lead (c : Char) : ∃ lead more, String.utf8EncodeChar c = lead :: more ∧
    isContinuation lead = false ∧ ∀ b ∈ more, isContinuation b = true := by
  obtain ⟨lead, more, ranges, hc, hranges, hmore, -⟩ := exists_parts c
  refine ⟨lead, more, hc, isContinuation_of_followers? lead (by rw [hranges]; rfl), ?_⟩
  by_cases hlead : lead = 0
  · subst hlead
    obtain rfl : [] = ranges := Option.some.inj hranges
    cases hmore
    exact nofun
  · exact isContinuation_of_within hmore (layoutFollowers?_of_followers? hlead hranges).2

/-- No well-formed character begins in front of the border and ends behind it. -/
def Border (xs ys : Bytes) : Prop :=
  ∀ (c : Char) (left right : Bytes), String.utf8EncodeChar c = left ++ right → left ≠ [] →
    right ≠ [] → left <:+ xs → ¬right <+: ys

/-- The byte between `before` and `after` belongs to no well-formed character. -/
def Stray (before : Bytes) (b : UInt8) (after : Bytes) : Prop :=
  ∀ (c : Char) (left right : Bytes), String.utf8EncodeChar c = left ++ b :: right →
    left <:+ before → ¬right <+: after

theorem Border.of_suffix (h : Border xs ys) {xs' : Bytes} (hx : xs' <:+ xs) : Border xs' ys :=
  fun c left right hc hleft hright hl => h c left right hc hleft hright (hl.trans hx)

/-- A character in front of a border is there without what is behind the border. -/
theorem Border.decodeChar?_append (h : Border xs ys) (hx : xs ≠ []) :
    decodeChar? (xs ++ ys) = (decodeChar? xs).map fun p => (p.1, p.2 ++ ys) := by
  cases hxs : decodeChar? xs with
  | some p =>
    obtain ⟨c, rest⟩ := p
    rw [← encodeChar_of_decodeChar? hxs, List.append_assoc, decodeChar?_encodeChar]
    rfl
  | none =>
    refine Option.eq_none_iff_forall_ne_some.2 fun ⟨c, rest⟩ hall => ?_
    have hbytes := encodeChar_of_decodeChar? hall
    rcases List.append_eq_append_iff.1 hbytes with ⟨tail, rfl, -⟩ | ⟨right, hc, rfl⟩
    · rw [decodeChar?_encodeChar] at hxs
      cases hxs
    · by_cases hright : right = []
      · subst hright
        have hself := decodeChar?_encodeChar c []
        rw [hc, List.append_nil, List.append_nil, hxs] at hself
        cases hself
      · exact h c xs right hc hx hright List.suffix_rfl (List.prefix_append right rest)

theorem decodeLenient_of_none {r : Bytes} (h : decodeChar? (b :: r) = none) :
    decodeLenient (b :: r) = Char.ofNat b.toNat :: decodeLenient r := by
  rw [decodeLenient]
  split
  · rename_i h'
    rw [h] at h'
    cases h'
  · rfl

/-- **Reading falls apart at borders.** -/
theorem decodeLenient_append (h : Border xs ys) :
    decodeLenient (xs ++ ys) = decodeLenient xs ++ decodeLenient ys := by
  fun_induction decodeLenient xs with
  | case1 => rfl
  | case2 b r c rest hc ih =>
    have hall := h.decodeChar?_append (List.cons_ne_nil b r)
    rw [hc] at hall
    have hrest : rest <:+ b :: r := ⟨_, encodeChar_of_decodeChar? hc⟩
    rw [decodeLenient_of_decodeChar? hall, ih (h.of_suffix hrest), List.cons_append]
  | case3 b r hc ih =>
    have hall := h.decodeChar?_append (List.cons_ne_nil b r)
    rw [List.cons_append, hc] at hall
    rw [List.cons_append, decodeLenient_of_none hall, ih (h.of_suffix (List.suffix_cons b r)),
      List.cons_append]

/-- No character reaches into another one. -/
theorem border_character (before : Bytes) (c : Char) (after : Bytes) :
    Border before (String.utf8EncodeChar c ++ after) := by
  intro d left right hd hleft hright _ hprefix
  obtain ⟨lead, more, hc, hlead, -⟩ := exists_lead c
  obtain ⟨lead', more', hd', -, hmore'⟩ := exists_lead d
  obtain ⟨x, left, rfl⟩ := List.exists_cons_of_ne_nil hleft
  obtain ⟨y, right, rfl⟩ := List.exists_cons_of_ne_nil hright
  rw [hc, List.cons_append] at hprefix
  obtain ⟨rfl, -⟩ := List.cons_prefix_cons.1 hprefix
  rw [hd', List.cons_append, List.cons.injEq] at hd
  have hy : isContinuation y = true := hmore' y (by rw [hd.2]; simp)
  rw [hlead] at hy
  cases hy

/-- **A well-formed character is kept wherever it stands.** -/
theorem decodeLenient_character (before : Bytes) (c : Char) (after : Bytes) :
    decodeLenient (before ++ (String.utf8EncodeChar c ++ after)) =
      decodeLenient before ++ c :: decodeLenient after := by
  rw [decodeLenient_append (border_character before c after),
    decodeLenient_of_decodeChar? (decodeChar?_encodeChar c after)]

/-- **A byte that belongs to no character stands for the code point of its value.** -/
theorem decodeLenient_stray (h : Stray before b after) :
    decodeLenient (before ++ b :: after) =
      decodeLenient before ++ Char.ofNat b.toNat :: decodeLenient after := by
  have hfront : Border before (b :: after) := by
    intro c left right hc _ hright hleft hprefix
    obtain ⟨y, right, rfl⟩ := List.exists_cons_of_ne_nil hright
    obtain ⟨rfl, hrest⟩ := List.cons_prefix_cons.1 hprefix
    exact h c left right hc hleft hrest
  have hnone : decodeChar? (b :: after) = none := by
    refine Option.eq_none_iff_forall_ne_some.2 fun ⟨c, rest⟩ hc => ?_
    have hbytes := encodeChar_of_decodeChar? hc
    obtain ⟨lead, more, hlead, -⟩ := exists_lead c
    rw [hlead, List.cons_append, List.cons.injEq] at hbytes
    obtain ⟨rfl, rfl⟩ := hbytes
    exact h c [] more hlead (List.nil_suffix) (List.prefix_append more rest)
  rw [decodeLenient_append hfront, decodeLenient_of_none hnone]

/-- Nothing is repaired just if the bytes are text. -/
theorem encodeChars_decodeLenient_iff (bs : Bytes) :
    encodeChars (decodeLenient bs) = bs ↔ WellFormed bs :=
  Codec.written_characters_iff (by decide : Codec.utf8 ≠ .identity) bs

end Utf8

/-! ### The codec -/

namespace Codec

open Utf8

variable {codec : Codec} {capacity : Nat} {src : Bytes}

/-- The `utf8` codec does the same in both directions. -/
theorem ofText_utf8 (capacity : Nat) (src : Bytes) :
    utf8.ofText capacity src = utf8.toText capacity src :=
  rfl

theorem decoded_utf8 (src : Bytes) : utf8.decoded src = encodeChars (decodeLenient src) :=
  rfl

/-- **What is decoded is text**, however much of it finds room. -/
theorem wellFormed_toText (h : codec ≠ .identity) (capacity : Nat) (src : Bytes) :
    WellFormed (codec.toText capacity src) := by
  obtain ⟨front, -, hout⟩ := exists_longest_toText h capacity src
  rw [hout]
  exact wellFormed_encodeChars front

/-- Text that finds room is left alone. -/
theorem toText_of_wellFormed (h : WellFormed src) (hroom : src.length ≤ capacity) :
    utf8.toText capacity src = src := by
  have hdecoded : utf8.decoded src = src := (encodeChars_decodeLenient_iff src).2 h
  rw [toText_eq_decoded (by rwa [hdecoded]), hdecoded]

/-- Where reading falls apart, the output does. -/
theorem decoded_eq_append {before middle after : Bytes} {c : Char}
    (h : decodeLenient (before ++ middle) = decodeLenient before ++ c :: decodeLenient after) :
    utf8.decoded (before ++ middle) =
      utf8.decoded before ++ (String.utf8EncodeChar c ++ utf8.decoded after) := by
  rw [decoded_utf8, h, encodeChars, List.flatMap_append, List.flatMap_cons]
  rfl

theorem toText_eq_append {before middle after : Bytes} {c : Char}
    (h : decodeLenient (before ++ middle) = decodeLenient before ++ c :: decodeLenient after)
    (hroom : (utf8.decoded (before ++ middle)).length ≤ capacity) :
    utf8.toText capacity (before ++ middle) =
      utf8.toText capacity before ++ (String.utf8EncodeChar c ++ utf8.toText capacity after) := by
  have hsplit := decoded_eq_append h
  have hlen := congrArg List.length hsplit
  rw [List.length_append, List.length_append] at hlen
  rw [toText_eq_decoded hroom, toText_eq_decoded (by omega), toText_eq_decoded (by omega), hsplit]

/-- **Decoding makes text of all bytes, and `utf8` repairs what is malformed and nothing
else.**  In a buffer of any capacity, what a codec other than `identity` decodes is
well-formed, and so is what `utf8` encodes; to repair it again changes nothing.  If the output
finds room, `utf8` leaves just the well-formed bytes as they are.  It keeps a well-formed
character wherever it stands, and a byte that belongs to none (neither starts nor continues
one) becomes the code point of its value, without regard to what stands around. -/
theorem repairs (capacity : Nat) (src : Bytes) :
    (∀ codec : Codec, codec ≠ .identity → WellFormed (codec.toText capacity src)) ∧
    WellFormed (utf8.ofText capacity src) ∧
    utf8.ofText capacity src = utf8.toText capacity src ∧
    utf8.toText capacity (utf8.toText capacity src) = utf8.toText capacity src ∧
    ((utf8.decoded src).length ≤ capacity →
      (utf8.toText capacity src = src ↔ WellFormed src) ∧
      (∀ before c after, src = before ++ (String.utf8EncodeChar c ++ after) →
        utf8.toText capacity src = utf8.toText capacity before ++
          (String.utf8EncodeChar c ++ utf8.toText capacity after)) ∧
      ∀ before b after, src = before ++ b :: after → Stray before b after →
        utf8.toText capacity src = utf8.toText capacity before ++
          (String.utf8EncodeChar (Char.ofNat b.toNat) ++ utf8.toText capacity after)) := by
  have hutf8 : WellFormed (utf8.toText capacity src) := wellFormed_toText (by decide) capacity src
  refine ⟨fun codec h => wellFormed_toText h capacity src, hutf8, ofText_utf8 capacity src,
    toText_of_wellFormed hutf8 (length_within_le capacity _), fun hroom => ⟨?_, ?_, ?_⟩⟩
  · rw [toText_eq_decoded hroom]
    exact encodeChars_decodeLenient_iff src
  · rintro before c after rfl
    exact toText_eq_append (decodeLenient_character before c after) hroom
  · rintro before b after rfl hb
    exact toText_eq_append (decodeLenient_stray hb) hroom

/-- A lead byte in front of a character that it does not belong to is repaired. -/
theorem repairs_lead : Codec.latin1 ≠ .identity ∧ WellFormed (latin1.toText 1 [0xC3]) ∧
    Stray [] 0xC3 [0xC3, 0xA9] ∧ (utf8.decoded [0xC3, 0xC3, 0xA9]).length ≤ 4 ∧
    utf8.toText 4 [0xC3, 0xC3, 0xA9] = Utf8.encode "Ãé" := by
  have hstray : Stray [] 0xC3 [0xC3, 0xA9] := by
    intro c left right hc hleft hprefix
    obtain rfl := List.suffix_nil.1 hleft
    obtain ⟨lead, more, hlead, -, hmore⟩ := exists_lead c
    obtain ⟨rfl, rfl⟩ := List.cons.inj (hlead.symm.trans hc)
    rcases List.prefix_cons_iff.1 hprefix with rfl | ⟨rest, rfl, -⟩
    · have hself := decodeChar?_encodeChar c []
      rw [hlead] at hself
      cases (show decodeChar? [0xC3] = none by decide).symm.trans hself
    · exact absurd (hmore 0xC3 List.mem_cons_self) (by decide)
  have hkept : decodeLenient [0xC3, 0xA9] = ['é'] := decodeLenient_encode "é"
  have hdecoded : utf8.decoded [0xC3, 0xC3, 0xA9] = Utf8.encode "Ãé" := by
    have hread := decodeLenient_stray hstray
    rw [hkept, decodeLenient] at hread
    exact congrArg encodeChars hread
  have hroom : (utf8.decoded [0xC3, 0xC3, 0xA9]).length ≤ 4 := by
    rw [hdecoded]
    decide
  have hrepair := ((repairs 4 [0xC3, 0xC3, 0xA9]).2.2.2.2 hroom).2.2 [] 0xC3 _ rfl hstray
  refine ⟨by decide, (repairs 1 [0xC3]).1 .latin1 (by decide), hstray, hroom, hrepair.trans ?_⟩
  have hempty : utf8.toText 4 [] = [] := toText_of_wellFormed ⟨"", rfl⟩ (by decide)
  have hwhole : utf8.toText 4 [0xC3, 0xA9] = [0xC3, 0xA9] :=
    toText_of_wellFormed ⟨"é", rfl⟩ (by decide)
  rw [hempty, hwhole]
  rfl

end Codec
end CommandBridge
