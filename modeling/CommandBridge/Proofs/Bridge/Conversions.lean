/-
# Conversions are never cut short

A conversion has four bytes of room for each byte that it is given (`Bridge.scratch`,
`Builtin.conversionRoom`).  No codec needs more than two in either direction
(`Codec.length_encoded_le`, `Codec.length_decoded_le`), so the host and the commands
`encoding convertto` and `encoding convertfrom` get the whole output.

The text that `convertfrom` leaves has just the bytes that were decoded, unless they were
passed on by `identity` and are no text (`Codec.encode_textReplacing_decoded`).
-/

import CommandBridge.Proofs.Bridge.TableArguments
import CommandBridge.Proofs.Bytes.Repair
import CommandBridge.Proofs.Interpreter.ListEvaluation

namespace CommandBridge

/-! ### Room -/

namespace Codec

variable {codec : Codec}

/-- Encoding makes no more than two bytes of one. -/
theorem length_encoded_le (codec : Codec) (src : Bytes) :
    (codec.encoded src).length ≤ 2 * src.length := by
  rw [← flatten_encoding]
  exact fits_piecesOfText codec src

/-- Decoding makes no more than two bytes of one. -/
theorem length_decoded_le (codec : Codec) (src : Bytes) :
    (codec.decoded src).length ≤ 2 * src.length := by
  rw [← flatten_decoding]
  exact fits_piecesToText codec src

theorem ofText_of_room {capacity : Nat} {src : Bytes} (h : src.length * 4 ≤ capacity) :
    codec.ofText capacity src = codec.encoded src := by
  have hlen := codec.length_encoded_le src
  exact ofText_eq_encoded (by omega)

theorem toText_of_room {capacity : Nat} {src : Bytes} (h : src.length * 4 ≤ capacity) :
    codec.toText capacity src = codec.decoded src := by
  have hlen := codec.length_decoded_le src
  exact toText_eq_decoded (by omega)

end Codec

namespace Utf8

theorem decodeReplacing_of_decodeChar? {bs rest : Bytes} {c : Char}
    (h : decodeChar? bs = some (c, rest)) : decodeReplacing bs = c :: decodeReplacing rest := by
  cases bs with
  | nil => cases h
  | cons b r =>
    rw [decodeReplacing]
    split
    · rename_i h'
      cases h.symm.trans h'
      rfl
    · rename_i h'
      cases h.symm.trans h'

/-- Nothing is replaced in text. -/
theorem decodeReplacing_encodeChars (cs : List Char) : decodeReplacing (encodeChars cs) = cs := by
  induction cs with
  | nil => rw [encodeChars, List.flatMap_nil, decodeReplacing]
  | cons c cs ih =>
    have hc := decodeChar?_encodeChar c (encodeChars cs)
    rw [encodeChars, List.flatMap_cons] at *
    rw [decodeReplacing_of_decodeChar? hc, ih]

theorem encode_textReplacing {bs : Bytes} (h : WellFormed bs) : encode (textReplacing bs) = bs := by
  obtain ⟨s, rfl⟩ := h
  rw [textReplacing, encode, String.toList_ofList, encode, decodeReplacing_encodeChars]

end Utf8

/-- What a codec other than `identity` decodes is a text with these very bytes. -/
theorem Codec.encode_textReplacing_decoded {codec : Codec} (h : codec ≠ .identity) (src : Bytes) :
    Utf8.encode (Utf8.textReplacing (codec.decoded src)) = codec.decoded src := by
  rw [decoded_of_ne h]
  exact Utf8.encode_textReplacing (Utf8.wellFormed_encodeChars _)

/-! ### Programs -/

/-- The encoding of a name, or the system encoding if no name is given. -/
def Interpreter.encoding? (s : Interpreter) : Option String → Option Encoding
  | none => some s.systemEncoding
  | some name => Encoding.find? name

namespace Interp

variable {i : Nat} {w : World} {name : Option String} {e : Encoding}

theorem does_findEncoding (h : (w.interpreter i).encoding? name = some e) :
    (findEncoding i name).Does w (pure (some e)) w := by
  cases name with
  | none =>
    cases h
    exact .reading (fun w => w.interpreter i) _ w
  | some name =>
    rw [findEncoding, show Encoding.find? name = some e from h]
    exact .refl _ w

end Interp

namespace Builtin

variable {i : Nat} {w : World} {e : Encoding} {name : Option Value}

/-- The words of a conversion command; the name of the encoding may be left out. -/
def conversionWords (command option : Value) (name : Option Value) (data : Value) : List Value :=
  command :: option :: (name.toList ++ [data])

theorem does_runConversion (words : List Value) (data : Value) (toText : Bool)
    (h : (w.interpreter i).encoding? (name.map Value.str) = some e) :
    (runConversion i words (name.toList ++ [data]) toText).Does w (pure .ok)
      (w.withResult i (converted e data toText)) := by
  cases name with
  | none => exact ((Interp.does_findEncoding h).bind _).trans (does_answer i _ w)
  | some name => exact ((Interp.does_findEncoding h).bind _).trans (does_answer i _ w)

theorem converted_ofText (e : Encoding) (data : Value) :
    converted e data false = .bytes (e.codec.encoded (Utf8.encode data.str)) :=
  congrArg Value.bytes (Codec.ofText_of_room (Nat.le_add_right _ 4))

theorem converted_toText (e : Encoding) (data : Value) :
    converted e data true = .text (Utf8.textReplacing (e.codec.decoded data.getBytes)) :=
  congrArg (fun bs => Value.text (Utf8.textReplacing bs))
    (Codec.toText_of_room (Nat.le_add_right _ 4))

theorem does_convertto (command data : Value) {option : Value} (hoption : option.str = "convertto")
    (h : (w.interpreter i).encoding? (name.map Value.str) = some e) :
    (run .encoding i (conversionWords command option name data)).Does w (pure .ok)
      (w.withResult i (.bytes (e.codec.encoded (Utf8.encode data.str)))) := by
  have hrun := does_runConversion (conversionWords command option name data) data false h
  rw [converted_ofText] at hrun
  simpa only [run, runEncoding, conversionWords, hoption] using hrun

theorem does_convertfrom (command data : Value) {option : Value}
    (hoption : option.str = "convertfrom")
    (h : (w.interpreter i).encoding? (name.map Value.str) = some e) :
    (run .encoding i (conversionWords command option name data)).Does w (pure .ok)
      (w.withResult i (.text (Utf8.textReplacing (e.codec.decoded data.getBytes)))) := by
  have hrun := does_runConversion (conversionWords command option name data) data true h
  rw [converted_toText] at hrun
  simpa only [run, runEncoding, conversionWords, hoption] using hrun

end Builtin

namespace Bridge

variable {handle i : Nat} {w : World} {name : Option String} {e : Encoding}

theorem does_withEncoding (hi : live? w handle = some i)
    (h : (w.interpreter i).encoding? name = some e) (k : Encoding → Bytes) :
    (withEncoding handle name k).Does w (pure (.ok (k e))) w :=
  (does_withLive hi).trans ((Interp.does_findEncoding h).bind _)

theorem does_toExternal (src : Bytes) (hi : live? w handle = some i)
    (h : (w.interpreter i).encoding? name = some e) :
    (toExternal handle src name).Does w (pure (.ok (e.codec.encoded src))) w := by
  rw [← Codec.ofText_of_room (Nat.le_add_right _ 1)]
  exact does_withEncoding hi h _

theorem does_toHostEncoding (src : Bytes) (hi : live? w handle = some i)
    (h : (w.interpreter i).encoding? name = some e) :
    (toHostEncoding handle src name).Does w (pure (.ok (e.codec.decoded src))) w := by
  rw [← Codec.toText_of_room (Nat.le_add_right _ 1)]
  exact does_withEncoding hi h _

/-- **Conversions are never cut short.**  The output of a codec has at most four bytes for each
byte of the input, well-formed or not, in both directions, and a buffer of that size or more
gets all of it.  So, with the encoding of a name or the system encoding, the conversions for
the host reply with the whole output, and the commands `encoding convertto` and
`encoding convertfrom` end with it as the result; nothing else changes.  The text that
`convertfrom` makes of it has the same bytes, unless `identity` passed on what is no text. -/
theorem conversions_complete (w : World) (i : Nat) (e : Encoding) :
    (∀ (codec : Codec) (src : Bytes), (codec.encoded src).length ≤ 4 * src.length ∧
      (codec.decoded src).length ≤ 4 * src.length ∧
      ∀ capacity, 4 * src.length ≤ capacity → codec.ofText capacity src = codec.encoded src ∧
        codec.toText capacity src = codec.decoded src) ∧
    (∀ (handle : Nat) (name : Option String) (src : Bytes), live? w handle = some i →
      (w.interpreter i).encoding? name = some e →
        (toExternal handle src name).Does w (pure (.ok (e.codec.encoded src))) w ∧
        (toHostEncoding handle src name).Does w (pure (.ok (e.codec.decoded src))) w) ∧
    (∀ (command option data : Value) (name : Option Value),
      (w.interpreter i).encoding? (name.map Value.str) = some e →
        (option.str = "convertto" →
          (Builtin.run .encoding i (Builtin.conversionWords command option name data)).Does w
            (pure .ok) (w.withResult i (.bytes (e.codec.encoded (Utf8.encode data.str))))) ∧
        (option.str = "convertfrom" →
          (Builtin.run .encoding i (Builtin.conversionWords command option name data)).Does w
            (pure .ok)
            (w.withResult i (.text (Utf8.textReplacing (e.codec.decoded data.getBytes)))))) ∧
    ∀ (codec : Codec) (src : Bytes), codec ≠ .identity →
      Utf8.encode (Utf8.textReplacing (codec.decoded src)) = codec.decoded src := by
  refine ⟨fun codec src => ?_, fun handle name src hi h =>
    ⟨does_toExternal src hi h, does_toHostEncoding src hi h⟩, fun command option data name h =>
      ⟨fun hoption => Builtin.does_convertto command data hoption h,
        fun hoption => Builtin.does_convertfrom command data hoption h⟩,
    fun codec src h => Codec.encode_textReplacing_decoded h src⟩
  have hencoded := codec.length_encoded_le src
  have hdecoded := codec.length_decoded_le src
  exact ⟨by omega, by omega, fun capacity hroom =>
    ⟨Codec.ofText_of_room (by omega), Codec.toText_of_room (by omega)⟩⟩

/-- A character outside of the basic plane takes four bytes in each of the two encodings, and
one above U+007F takes two bytes of text for one of `iso8859-1`. -/
theorem conversions_complete_pair : live? (World.bridged 10) 0 = some 0 ∧
    ((World.bridged 10).interpreter 0).encoding? (some "unicode") = some ⟨"unicode", .unicode⟩ ∧
    (toExternal 0 (Utf8.encode "é😀") (some "unicode")).Does (World.bridged 10)
      (pure (.ok [0xE9, 0, 0x3D, 0xD8, 0, 0xDE])) (World.bridged 10) ∧
    (Builtin.run .encoding 0 [.text "encoding", .text "convertfrom", .text "iso8859-1",
        .bytes [0xE9]]).Does (World.bridged 10) (pure .ok)
      ((World.bridged 10).withResult 0 (.text "é")) := by
  have hlive : live? (World.bridged 10) 0 = some 0 := rfl
  have hunicode : ((World.bridged 10).interpreter 0).encoding? (some "unicode") =
      some ⟨"unicode", .unicode⟩ := by decide
  have hlatin1 : ((World.bridged 10).interpreter 0).encoding? ((some (Value.text
      "iso8859-1")).map Value.str) = some ⟨"iso8859-1", .latin1⟩ := by decide
  have hbytes : Codec.unicode.encoded (Utf8.encode "é😀") = [0xE9, 0, 0x3D, 0xD8, 0, 0xDE] := by
    rw [Codec.encoded_of_ne (by decide), Utf8.decodeLenient_encode]
    decide
  have htext : Utf8.textReplacing (Codec.latin1.decoded [0xE9]) = "é" := by
    have hkept := Utf8.decodeReplacing_encodeChars ['é']
    exact congrArg String.ofList hkept
  refine ⟨hlive, hunicode, ?_, ?_⟩
  · have hto := ((conversions_complete _ 0 _).2.1 0 _ (Utf8.encode "é😀") hlive hunicode).1
    rwa [hbytes] at hto
  · have hfrom := ((conversions_complete _ 0 _).2.2.1 (.text "encoding") (.text "convertfrom")
      (.bytes [0xE9]) (some (.text "iso8859-1")) hlatin1).2 rfl
    change (Builtin.run .encoding 0 _).Does _ _ (World.withResult _ 0 (.text (Utf8.textReplacing
      (Codec.latin1.decoded [0xE9])))) at hfrom
    rwa [htext] at hfrom

end Bridge
end CommandBridge
