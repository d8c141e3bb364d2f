/-
# Character encodings

An encoding is a name for a codec.  A codec turns interpreter text, which is
UTF-8 read leniently, into the bytes of the encoding (`ofText`) and back
(`toText`).  Both produce their output in pieces, and `within` writes pieces
into a buffer of given capacity up to the first that does not fit.  The pieces
are whole characters, except that `unicode` writes each UTF-16 unit by itself
and `identity` each byte.
-/

import CommandBridge.Bytes.Utf16

namespace CommandBridge

/-- The conversion routines. -/
inductive Codec where
  | utf8
  | latin1
  | ascii
  | identity
  | unicode
deriving DecidableEq, Repr

namespace Codec

/-- The output of encoding text, in pieces. -/
def piecesOfText (codec : Codec) (src : Bytes) : List Bytes :=
  match codec with
  | .identity => src.map ([·])
  | .utf8 => (Utf8.decodeLenient src).map String.utf8EncodeChar
  | .latin1 => (Utf8.decodeLenient src).map fun c =>
      [if c.toNat < 256 then UInt8.ofNat c.toNat else 0x3F]
  | .ascii => (Utf8.decodeLenient src).map fun c =>
      [if c.toNat < 128 then UInt8.ofNat c.toNat else 0x3F]
  | .unicode => ((Utf8.decodeLenient src).flatMap Utf16.units).map Utf16.unitBytes

/-- The characters that bytes of the encoding stand for; `identity` has none,
since its bytes are passed on as they are. -/
def characters (codec : Codec) (src : Bytes) : List Char :=
  match codec with
  | .identity => []
  | .utf8 => Utf8.decodeLenient src
  | .latin1 => src.map fun b => Char.ofNat b.toNat
  | .ascii => src.map fun b => if b < 0x80 then Char.ofNat b.toNat else '?'
  | .unicode => Utf16.decode (Utf16.ofBytes src)

/-- The output of decoding bytes, in pieces. -/
def piecesToText (codec : Codec) (src : Bytes) : List Bytes :=
  match codec with
  | .identity => src.map ([·])
  | _ => (codec.characters src).map String.utf8EncodeChar

/-- The pieces that fit into `capacity` bytes one after the other, up to the
first that does not. -/
def within (capacity : Nat) : List Bytes → Bytes
  | [] => []
  | piece :: rest =>
    if piece.length ≤ capacity then piece ++ within (capacity - piece.length) rest else []

theorem length_within_le (capacity : Nat) (pieces : List Bytes) :
    (within capacity pieces).length ≤ capacity := by
  induction pieces generalizing capacity with
  | nil => simp [within]
  | cons piece rest ih =>
    rw [within]
    split
    · have := ih (capacity - piece.length)
      rw [List.length_append]
      omega
    · simp

/-- Encodes text into a buffer of the given capacity. -/
def ofText (codec : Codec) (capacity : Nat) (src : Bytes) : Bytes :=
  within capacity (codec.piecesOfText src)

/-- Decodes bytes to text in a buffer of the given capacity. -/
def toText (codec : Codec) (capacity : Nat) (src : Bytes) : Bytes :=
  within capacity (codec.piecesToText src)

end Codec

/-- A named encoding. -/
structure Encoding where
  name : String
  codec : Codec
deriving DecidableEq, Repr

namespace Encoding

/-- All encodings, in the order of their names. -/
def all : List Encoding :=
  [⟨"ascii", .ascii⟩, ⟨"identity", .identity⟩, ⟨"iso8859-1", .latin1⟩, ⟨"unicode", .unicode⟩,
    ⟨"utf-8", .utf8⟩]

/-- The encoding that a new interpreter uses. -/
def standard : Encoding := ⟨"utf-8", .utf8⟩

instance : Inhabited Encoding := ⟨standard⟩

theorem standard_mem_all : standard ∈ all := by decide

/-- The encoding of a name. -/
def find? (name : String) : Option Encoding :=
  all.find? (·.name == name)

/-- The known names, sorted. -/
def names : List String :=
  all.map (·.name)

end Encoding
end CommandBridge
