/-
# UTF-8

A character is written as a lead byte and up to three continuation bytes.
`followers?` gives, for each lead byte, the ranges its continuation bytes must
lie in; these ranges rule out overlong forms, surrogates and what lies above
the last code point.  `decodeChar?` reads one character by it.

Three readers differ in what they do where no character starts:

| reader | malformed bytes |
| --- | --- |
| `decode?` | refuses the text |
| `decodeReplacing` | one U+FFFD for the longest prefix of a character, at least one byte |
| `decodeLenient` | each byte stands for the code point of its value |

`isLayout` is a weaker test: it checks the layouts of one to six bytes by their
lead bytes only, and refuses the zero byte.
-/

namespace CommandBridge

/-- A string of bytes. -/
abbrev Bytes := List UInt8

namespace Utf8

/-- The bytes of characters. -/
def encodeChars (cs : List Char) : Bytes :=
  cs.flatMap String.utf8EncodeChar

/-- The bytes of a text. -/
def encode (s : String) : Bytes :=
  encodeChars s.toList

/-- Whether a byte is a continuation byte. -/
def isContinuation (b : UInt8) : Bool :=
  b &&& 0xC0 == 0x80

/-- The ranges of the bytes after a lead byte; none for a byte that leads
nothing. -/
def followers? (lead : UInt8) : Option (List (UInt8 × UInt8)) :=
  if lead < 0x80 then some []
  else if lead < 0xC2 then none
  else if lead < 0xE0 then some [(0x80, 0xBF)]
  else if lead = 0xE0 then some [(0xA0, 0xBF), (0x80, 0xBF)]
  else if lead = 0xED then some [(0x80, 0x9F), (0x80, 0xBF)]
  else if lead < 0xF0 then some [(0x80, 0xBF), (0x80, 0xBF)]
  else if lead = 0xF0 then some [(0x90, 0xBF), (0x80, 0xBF), (0x80, 0xBF)]
  else if lead < 0xF4 then some [(0x80, 0xBF), (0x80, 0xBF), (0x80, 0xBF)]
  else if lead = 0xF4 then some [(0x80, 0x8F), (0x80, 0xBF), (0x80, 0xBF)]
  else none

/-- How many of the ranges the next bytes fit, up to the first misfit. -/
def fitting : List (UInt8 × UInt8) → Bytes → Nat
  | (low, high) :: ranges, b :: r => if low ≤ b ∧ b ≤ high then fitting ranges r + 1 else 0
  | _, _ => 0

theorem fitting_le_length (ranges : List (UInt8 × UInt8)) (bs : Bytes) :
    fitting ranges bs ≤ bs.length := by
  induction ranges generalizing bs with
  | nil => simp [fitting]
  | cons range ranges ih =>
    cases bs with
    | nil => simp [fitting]
    | cons b r =>
      rw [fitting]
      split
      · simpa using ih r
      · simp

/-- The payload of a lead byte with `n` followers. -/
def leadPayload (lead : UInt8) (n : Nat) : Nat :=
  if n = 0 then lead.toNat else lead.toNat % (1 <<< (6 - n))

/-- The code point of a lead byte and its continuation bytes. -/
def codePoint (lead : UInt8) (more : Bytes) : Nat :=
  more.foldl (fun n b => 64 * n + b.toNat % 64) (leadPayload lead more.length)

/-- The character at the head of the bytes, if a well-formed one starts there,
and the bytes after it. -/
def decodeChar? : Bytes → Option (Char × Bytes)
  | [] => none
  | lead :: r =>
    (followers? lead).bind fun ranges =>
      if fitting ranges r = ranges.length then
        some (Char.ofNat (codePoint lead (r.take ranges.length)), r.drop ranges.length)
      else none

theorem length_lt_of_decodeChar? {bs rest : Bytes} {c : Char} (h : decodeChar? bs = some (c, rest)) :
    rest.length < bs.length := by
  cases bs with
  | nil => simp [decodeChar?] at h
  | cons lead r =>
    obtain ⟨ranges, -, h⟩ := Option.bind_eq_some_iff.1 h
    split at h
    · cases h
      simp only [List.length_drop, List.length_cons]
      omega
    · cases h

/-- Reads well-formed text. -/
def decode? (bs : Bytes) : Option (List Char) :=
  if bs.isEmpty then some []
  else
    match _h : decodeChar? bs with
    | none => none
    | some (c, rest) => (decode? rest).map (c :: ·)
termination_by bs.length
decreasing_by exact length_lt_of_decodeChar? _h

/-- Well-formed text as a string. -/
def text? (bs : Bytes) : Option String :=
  (decode? bs).map String.ofList

/-- How many bytes after a lead byte belong to the same malformed piece. -/
def malformedExtent (lead : UInt8) (r : Bytes) : Nat :=
  match followers? lead with
  | none => 0
  | some ranges => fitting ranges r

/-- Reads text with U+FFFD for every malformed piece. -/
def decodeReplacing : Bytes → List Char
  | [] => []
  | lead :: r =>
    match _h : decodeChar? (lead :: r) with
    | some (c, rest) => c :: decodeReplacing rest
    | none => '\uFFFD' :: decodeReplacing (r.drop (malformedExtent lead r))
termination_by bs => bs.length
decreasing_by
  · exact length_lt_of_decodeChar? _h
  · simp only [List.length_drop, List.length_cons]
    omega

/-- Text with U+FFFD for every malformed piece, as a string. -/
def textReplacing (bs : Bytes) : String :=
  String.ofList (decodeReplacing bs)

/-- Reads text in which a byte that no character starts at stands for the code
point of its value. -/
def decodeLenient : Bytes → List Char
  | [] => []
  | b :: r =>
    match _h : decodeChar? (b :: r) with
    | some (c, rest) => c :: decodeLenient rest
    | none => Char.ofNat b.toNat :: decodeLenient r
termination_by bs => bs.length
decreasing_by
  · exact length_lt_of_decodeChar? _h
  · simp

/-- The number of continuation bytes that a lead byte announces by its layout,
up to five; the zero byte announces nothing acceptable. -/
def layoutFollowers? (lead : UInt8) : Option Nat :=
  if lead = 0 then none
  else if lead &&& 0x80 = 0 then some 0
  else if lead &&& 0xE0 = 0xC0 then some 1
  else if lead &&& 0xF0 = 0xE0 then some 2
  else if lead &&& 0xF8 = 0xF0 then some 3
  else if lead &&& 0xFC = 0xF8 then some 4
  else if lead &&& 0xFE = 0xFC then some 5
  else none

/-- Whether the bytes are `pending` continuation bytes and then whole units,
each a lead byte and as many continuation bytes as it announces. -/
def layoutFrom : Nat → Bytes → Bool
  | 0, [] => true
  | _ + 1, [] => false
  | 0, b :: r =>
    match layoutFollowers? b with
    | none => false
    | some n => layoutFrom n r
  | n + 1, b :: r => isContinuation b && layoutFrom n r

/-- Whether the bytes consist of whole units of the layouts of one to six bytes
and hold no zero byte. -/
def isLayout (bs : Bytes) : Bool :=
  layoutFrom 0 bs

end Utf8
end CommandBridge
