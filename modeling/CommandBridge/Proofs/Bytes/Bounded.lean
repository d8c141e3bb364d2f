/-
# Bounded output

A codec writes into a buffer up to the first piece that does not fit (`Codec.within`).
Where the pieces are the bytes of whole characters, that is the longest beginning of the
characters whose bytes fit together (`Longest`, `exists_longest_map`).  So is all output of
decoding, and all output of encoding but that of `unicode`: it writes the two units of a
surrogate pair one by one, and a buffer that has room for one of them only gets the high
surrogate (`exists_longest_units`, `surrogate_alone`).

Whatever the capacity, the output is a beginning of the output without bound, `encoded` or
`decoded` (`ofText_isPrefix`, `toText_isPrefix`), and all of it if there is room
(`ofText_eq_encoded`, `toText_eq_decoded`).
-/

import CommandBridge.Proofs.Bytes.Codecs

namespace CommandBridge
namespace Codec

variable {codec : Codec} {capacity : Nat}

/-! ### Output without bound -/

/-- The bytes of one character in the encoding; `identity` has no characters. -/
def bytesOf : Codec → Char → Bytes
  | .utf8, c => String.utf8EncodeChar c
  | .latin1, c => [if c.toNat < 256 then UInt8.ofNat c.toNat else 0x3F]
  | .ascii, c => [if c.toNat < 128 then UInt8.ofNat c.toNat else 0x3F]
  | .identity, _ => []
  | .unicode, c => (Utf16.units c).flatMap Utf16.unitBytes

/-- What text becomes in the encoding, whatever room that takes. -/
def encoded : Codec → Bytes → Bytes
  | .identity, src => src
  | codec, src => codec.written (Utf8.decodeLenient src)

/-- What bytes of the encoding become as text, whatever room that takes. -/
def decoded : Codec → Bytes → Bytes
  | .identity, src => src
  | codec, src => Utf8.encodeChars (codec.characters src)

theorem encoded_of_ne (h : codec ≠ .identity) (src : Bytes) :
    codec.encoded src = codec.written (Utf8.decodeLenient src) := by
  cases codec with
  | identity => exact absurd rfl h
  | utf8 | latin1 | ascii | unicode => rfl

theorem decoded_of_ne (h : codec ≠ .identity) (src : Bytes) :
    codec.decoded src = Utf8.encodeChars (codec.characters src) := by
  cases codec with
  | identity => exact absurd rfl h
  | utf8 | latin1 | ascii | unicode => rfl

theorem written_eq_flatMap (codec : Codec) (cs : List Char) :
    codec.written cs = cs.flatMap codec.bytesOf := by
  cases codec with
  | utf8 => rfl
  | latin1 | ascii => exact (List.flatMap_pure_eq_map _ _).symm
  | identity => exact (List.flatMap_eq_nil_iff.2 fun _ _ => rfl).symm
  | unicode => exact List.flatMap_assoc

theorem flatten_encoding (codec : Codec) (src : Bytes) :
    (codec.piecesOfText src).flatten = codec.encoded src := by
  by_cases h : codec = .identity
  · subst h
    exact (flatten_identity src).1
  · rw [flatten_piecesOfText h, encoded_of_ne h]

theorem flatten_decoding (codec : Codec) (src : Bytes) :
    (codec.piecesToText src).flatten = codec.decoded src := by
  by_cases h : codec = .identity
  · subst h
    exact (flatten_identity src).2
  · rw [flatten_piecesToText h, decoded_of_ne h]

theorem piecesToText_of_ne (h : codec ≠ .identity) (src : Bytes) :
    codec.piecesToText src = (codec.characters src).map String.utf8EncodeChar := by
  cases codec with
  | identity => exact absurd rfl h
  | utf8 | latin1 | ascii | unicode => rfl

theorem piecesOfText_of_ne (h : codec ≠ .identity) (h' : codec ≠ .unicode) (src : Bytes) :
    codec.piecesOfText src = (Utf8.decodeLenient src).map codec.bytesOf := by
  cases codec with
  | identity => exact absurd rfl h
  | unicode => exact absurd rfl h'
  | utf8 | latin1 | ascii => rfl

theorem within_isPrefix (capacity : Nat) (pieces : List Bytes) :
    within capacity pieces <+: pieces.flatten := by
  induction pieces generalizing capacity with
  | nil => exact List.prefix_rfl
  | cons piece pieces ih =>
    rw [within, List.flatten_cons]
    split
    · exact (List.prefix_append_right_inj piece).2 (ih _)
    · exact List.nil_prefix

theorem ofText_isPrefix (codec : Codec) (capacity : Nat) (src : Bytes) :
    codec.ofText capacity src <+: codec.encoded src :=
  flatten_encoding codec src ▸ within_isPrefix capacity _

theorem toText_isPrefix (codec : Codec) (capacity : Nat) (src : Bytes) :
    codec.toText capacity src <+: codec.decoded src :=
  flatten_decoding codec src ▸ within_isPrefix capacity _

theorem ofText_eq_encoded {src : Bytes} (h : (codec.encoded src).length ≤ capacity) :
    codec.ofText capacity src = codec.encoded src := by
  rw [← flatten_encoding] at h ⊢
  exact within_of_fits h

theorem toText_eq_decoded {src : Bytes} (h : (codec.decoded src).length ≤ capacity) :
    codec.toText capacity src = codec.decoded src := by
  rw [← flatten_decoding] at h ⊢
  exact within_of_fits h

/-! ### The longest beginning that fits -/

/-- Of the beginnings of `cs` whose bytes fit into the buffer together, `front` is the
longest. -/
structure Longest (bytes : Char → Bytes) (capacity : Nat) (cs front : List Char) : Prop where
  begins : front <+: cs
  fits : (front.flatMap bytes).length ≤ capacity
  longest {other : List Char} (h : other <+: cs)
    (hfits : (other.flatMap bytes).length ≤ capacity) : other <+: front

namespace Longest

variable {bytes : Char → Bytes} {c : Char} {cs front front' : List Char}

theorem nil : Longest bytes capacity [] [] where
  begins := List.prefix_rfl
  fits := Nat.zero_le _
  longest h _ := h

/-- If the first character does not fit, nothing does. -/
theorem stop (h : capacity < (bytes c).length) : Longest bytes capacity (c :: cs) [] where
  begins := List.nil_prefix
  fits := Nat.zero_le _
  longest {other} hother hfits := by
    rcases List.prefix_cons_iff.1 hother with rfl | ⟨rest, rfl, -⟩
    · exact List.prefix_rfl
    · rw [List.flatMap_cons, List.length_append] at hfits
      omega

/-- If the first character fits, the others have the room behind it. -/
theorem cons (h : (bytes c).length ≤ capacity)
    (hfront : Longest bytes (capacity - (bytes c).length) cs front) :
    Longest bytes capacity (c :: cs) (c :: front) where
  begins := List.cons_prefix_cons.2 ⟨rfl, hfront.begins⟩
  fits := by
    have hrest := hfront.fits
    rw [List.flatMap_cons, List.length_append]
    omega
  longest {other} hother hfits := by
    rcases List.prefix_cons_iff.1 hother with rfl | ⟨rest, rfl, hrest⟩
    · exact List.nil_prefix
    · rw [List.flatMap_cons, List.length_append] at hfits
      exact List.cons_prefix_cons.2 ⟨rfl, hfront.longest hrest (by omega)⟩

theorem unique (h : Longest bytes capacity cs front) (h' : Longest bytes capacity cs front') :
    front' = front :=
  (h.longest h'.begins h'.fits).eq_of_length_le (h'.longest h.begins h.fits).length_le

end Longest

variable {bytes : Char → Bytes}

/-- Whole characters are written up to the first that does not fit. -/
theorem exists_longest_map (bytes : Char → Bytes) (capacity : Nat) (cs : List Char) :
    ∃ front, Longest bytes capacity cs front ∧
      within capacity (cs.map bytes) = front.flatMap bytes := by
  induction cs generalizing capacity with
  | nil => exact ⟨[], .nil, rfl⟩
  | cons c cs ih =>
    rw [List.map_cons, within]
    by_cases hc : (bytes c).length ≤ capacity
    · obtain ⟨front, hfront, hwithin⟩ := ih (capacity - (bytes c).length)
      refine ⟨c :: front, .cons hc hfront, ?_⟩
      rw [if_pos hc, hwithin, List.flatMap_cons]
    · exact ⟨[], .stop (Nat.lt_of_not_le hc), if_neg hc⟩

/-! ### Surrogate pairs -/

/-- The high surrogate of a character above U+FFFF. -/
def highBytes (c : Char) : Bytes :=
  Utf16.unitBytes (0xD800 + (c.toNat - 0x10000) / 0x400)

/-- What is written of the characters for which there is no room: `unicode` writes the high
surrogate of the first one, if there is room for that. -/
def torn (codec : Codec) (room : Nat) (behind : List Char) : Bytes :=
  match codec, behind with
  | .unicode, c :: _ => if 2 ≤ room then highBytes c else []
  | _, _ => []

theorem torn_eq_nil (h : codec ≠ .unicode) (room : Nat) (behind : List Char) :
    codec.torn room behind = [] := by
  cases codec with
  | unicode => exact absurd rfl h
  | utf8 | latin1 | ascii | identity => rfl

theorem torn_eq_nil_iff (codec : Codec) (room : Nat) (behind : List Char) :
    codec.torn room behind = [] ↔ ¬(codec = .unicode ∧ behind ≠ [] ∧ 2 ≤ room) := by
  by_cases h : codec = .unicode
  · subst h
    cases behind with
    | nil => exact iff_of_true rfl fun h => h.2.1 rfl
    | cons c rest =>
      rw [torn]
      split
      · rename_i hroom
        exact iff_of_false (List.cons_ne_nil _ _) fun h => h ⟨rfl, List.cons_ne_nil _ _, hroom⟩
      · rename_i hroom
        exact iff_of_true rfl fun h => hroom h.2.2
  · exact iff_of_true (torn_eq_nil h _ _) fun h' => h h'.1

/-- A character is one unit, or two of which the first is the high surrogate. -/
theorem units_pieces (c : Char) :
    (Utf16.units c).map Utf16.unitBytes = [bytesOf .unicode c] ∧
        (bytesOf .unicode c).length = 2 ∨
      ∃ low : Nat, (Utf16.units c).map Utf16.unitBytes = [highBytes c, Utf16.unitBytes low] ∧
        bytesOf .unicode c = highBytes c ++ Utf16.unitBytes low ∧ 0x10000 ≤ c.toNat := by
  rw [bytesOf, Utf16.units]
  split
  · exact .inl ⟨rfl, rfl⟩
  · exact .inr ⟨_, rfl, rfl, by omega⟩

/-- Units are written up to the first that does not fit, so whole characters and perhaps a
high surrogate. -/
theorem exists_longest_units (capacity : Nat) (cs : List Char) :
    ∃ front behind, front ++ behind = cs ∧ Longest (bytesOf .unicode) capacity cs front ∧
      within capacity ((cs.flatMap Utf16.units).map Utf16.unitBytes) =
        front.flatMap (bytesOf .unicode) ++
          torn .unicode (capacity - (front.flatMap (bytesOf .unicode)).length) behind := by
  induction cs generalizing capacity with
  | nil => exact ⟨[], [], rfl, .nil, rfl⟩
  | cons c cs ih =>
    rw [List.flatMap_cons, List.map_append]
    by_cases hc : (bytesOf .unicode c).length ≤ capacity
    · obtain ⟨front, behind, rfl, hfront, hwithin⟩ := ih (capacity - (bytesOf .unicode c).length)
      refine ⟨c :: front, behind, rfl, .cons hc hfront, ?_⟩
      have hroom : capacity - ((c :: front).flatMap (bytesOf .unicode)).length =
          capacity - (bytesOf .unicode c).length - (front.flatMap (bytesOf .unicode)).length := by
        rw [List.flatMap_cons, List.length_append, Nat.sub_sub]
      rw [hroom, List.flatMap_cons, List.append_assoc, ← hwithin]
      rcases units_pieces c with ⟨hpieces, -⟩ | ⟨low, hpieces, hbytes, -⟩
      · rw [hpieces, List.singleton_append, within, if_pos hc]
      · rw [hbytes, List.length_append] at hc
        rw [hpieces, List.cons_append, List.singleton_append, within, if_pos (by omega), within,
          if_pos (by omega), hbytes, List.length_append, Nat.sub_sub, List.append_assoc]
    · refine ⟨[], c :: cs, rfl, .stop (Nat.lt_of_not_le hc), ?_⟩
      change _ = if 2 ≤ capacity then highBytes c else []
      rcases units_pieces c with ⟨hpieces, hlen⟩ | ⟨low, hpieces, hbytes, -⟩
      · rw [hpieces, List.singleton_append, within, if_neg hc, if_neg (by omega)]
      · have hlen : (bytesOf .unicode c).length = 2 + 2 := congrArg List.length hbytes
        rw [hpieces, List.cons_append, List.singleton_append, within]
        change (if 2 ≤ capacity then highBytes c ++ within (capacity - 2) _ else []) = _
        split
        · rw [within, if_neg (by change ¬2 ≤ _; omega), List.append_nil]
        · rfl

/-! ### The cut -/

/-- Decoding writes the longest beginning of the characters that fits. -/
theorem exists_longest_toText (h : codec ≠ .identity) (capacity : Nat) (src : Bytes) :
    ∃ front, Longest String.utf8EncodeChar capacity (codec.characters src) front ∧
      codec.toText capacity src = Utf8.encodeChars front := by
  rw [toText, piecesToText_of_ne h]
  exact exists_longest_map _ capacity _

/-- Encoding does so too, up to a high surrogate. -/
theorem exists_longest_ofText (h : codec ≠ .identity) (capacity : Nat) (src : Bytes) :
    ∃ front behind, front ++ behind = Utf8.decodeLenient src ∧
      Longest codec.bytesOf capacity (Utf8.decodeLenient src) front ∧
      codec.ofText capacity src = codec.written front ++
        codec.torn (capacity - (codec.written front).length) behind := by
  simp only [written_eq_flatMap, ofText]
  by_cases hcodec : codec = .unicode
  · subst hcodec
    exact exists_longest_units capacity _
  · obtain ⟨front, hfront, hwithin⟩ :=
      exists_longest_map codec.bytesOf capacity (Utf8.decodeLenient src)
    obtain ⟨behind, hbehind⟩ := hfront.begins
    refine ⟨front, behind, hbehind, hfront, ?_⟩
    rw [piecesOfText_of_ne h hcodec, hwithin, torn_eq_nil hcodec, List.append_nil]

/-- **Bounded output is cut at whole characters, but for surrogate pairs.**  In a buffer of any
capacity, decoding leaves the bytes of the longest beginning of the characters that fits.
Encoding does so too, unless the codec is `unicode`, characters are left out and there is room
for a unit more: then the next character takes a surrogate pair, of which the first half is
written.  Everything that is written is a beginning of the output without bound. -/
theorem cut_at_characters (h : codec ≠ .identity) (capacity : Nat) (src : Bytes) :
    (codec.toText capacity src <+: codec.decoded src ∧
      ∃ front, Longest String.utf8EncodeChar capacity (codec.characters src) front ∧
        codec.toText capacity src = Utf8.encodeChars front) ∧
    codec.ofText capacity src <+: codec.encoded src ∧
    ∃ front behind, front ++ behind = Utf8.decodeLenient src ∧
      Longest codec.bytesOf capacity (Utf8.decodeLenient src) front ∧
      (codec.ofText capacity src = codec.written front ↔
        ¬(codec = .unicode ∧ behind ≠ [] ∧ 2 ≤ capacity - (codec.written front).length)) ∧
      codec.ofText capacity src = codec.written front ++
        codec.torn (capacity - (codec.written front).length) behind := by
  obtain ⟨front, behind, hsplit, hfront, hout⟩ := exists_longest_ofText h capacity src
  refine ⟨⟨toText_isPrefix codec capacity src, exists_longest_toText h capacity src⟩,
    ofText_isPrefix codec capacity src, front, behind, hsplit, hfront, ?_, hout⟩
  rw [← torn_eq_nil_iff, hout, List.append_right_eq_self]

/-- Of three characters with five bytes two fit into three bytes. -/
theorem cut_at_characters_two : Codec.utf8 ≠ .identity ∧
    Codec.utf8.ofText 3 (Utf8.encode "aéé") = Utf8.encode "aé" := by
  obtain ⟨-, -, front, behind, -, hfront, hwhole, -⟩ :=
    cut_at_characters (by decide : Codec.utf8 ≠ .identity) 3 (Utf8.encode "aéé")
  rw [Utf8.decodeLenient_encode] at hfront
  have htwo : Longest String.utf8EncodeChar 3 ['a', 'é', 'é'] ['a', 'é'] :=
    .cons (by decide) (.cons (by decide) (.stop (by decide)))
  refine ⟨by decide, (hwhole.2 fun h => nomatch h.1).trans ?_⟩
  rw [htwo.unique hfront]
  rfl

/-- **A buffer of two bytes gets half of a character:** the high surrogate of one that takes
four bytes, although no character fits. -/
theorem surrogate_alone :
    Codec.unicode.ofText 2 (Utf8.encode "😀") = [0x3D, 0xD8] ∧
      ¬∃ front, Longest (bytesOf .unicode) 2 (Utf8.decodeLenient (Utf8.encode "😀")) front ∧
        Codec.unicode.ofText 2 (Utf8.encode "😀") = Codec.unicode.written front := by
  have hout : Codec.unicode.ofText 2 (Utf8.encode "😀") = [0x3D, 0xD8] := by
    rw [ofText, piecesOfText, Utf8.decodeLenient_encode]
    decide
  refine ⟨hout, ?_⟩
  rintro ⟨front, hfront, hwhole⟩
  rw [Utf8.decodeLenient_encode] at hfront
  have hnone : Longest (bytesOf .unicode) 2 ['😀'] [] := .stop (by decide)
  rw [hnone.unique hfront, hout] at hwhole
  cases hwhole

end Codec
end CommandBridge
