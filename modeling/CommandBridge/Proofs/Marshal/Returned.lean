/-
# What comes back to the interpreter

A value that is handed to the host and converted back need not be the same
(`Value.returned`).  The host has one kind of strings, so what went out as a text and what
went out as bytes can only be told apart by the bytes:

| value | comes back as |
| --- | --- |
| text | the text; with a zero character: its bytes |
| byte string | the bytes; as well-formed UTF-8 without zero: the text they encode |
| truth value | the integer 0 or 1 |
| list | the list of what its elements come back as |

Such a change is seen in the text of the value just if a character is concerned that is
not ASCII (`Kept`, `str_returned_iff`): encoded it takes several bytes, and each of them
counts as a character where bytes are shown as a text.
-/

import CommandBridge.Proofs.Bytes.Encoding
import CommandBridge.Proofs.Marshal.Conversion
import CommandBridge.Proofs.Value.Answers

namespace CommandBridge
namespace Value

mutual

/-- What a value comes back as from the host. -/
def returned : Value → Value
  | .empty => .text ""
  | .int i => .int i
  | .double x => Marshal.ofNumber x
  | .boolean b => .int (if b then 1 else 0)
  | .bytes bs =>
    match Utf8.text? bs with
    | some s => if '\x00' ∈ s.toList then .bytes bs else .text s
    | none => .bytes bs
  | .text s => if '\x00' ∈ s.toList then .bytes (Utf8.encode s) else .text s
  | .foreign _ s => if '\x00' ∈ s.toList then .bytes (Utf8.encode s) else .text s
  | .list elements => .list (returnedEach elements)

/-- What values come back as from the host. -/
def returnedEach : List Value → List Value
  | [] => []
  | v :: r => v.returned :: returnedEach r

end

mutual

/-- The value is built from integers, truth values, texts, byte strings and lists. -/
def Discrete : Value → Prop
  | .int _ | .boolean _ | .text _ | .bytes _ => True
  | .list elements => DiscreteEach elements
  | .empty | .double _ | .foreign _ _ => False

/-- The values are built from integers, truth values, texts, byte strings and lists. -/
def DiscreteEach : List Value → Prop
  | [] => True
  | v :: r => v.Discrete ∧ DiscreteEach r

end

mutual

/-- No text in the value holds zero beside a character that is not ASCII, and no byte string
in it encodes a text without zero that is not ASCII. -/
def Kept : Value → Prop
  | .text s => '\x00' ∈ s.toList → Utf8.IsAscii s
  | .bytes bs => ∀ s, Utf8.text? bs = some s → '\x00' ∉ s.toList → Utf8.IsAscii s
  | .list elements => KeptEach elements
  | .empty | .int _ | .double _ | .boolean _ | .foreign _ _ => True

/-- No text in the values holds zero beside a character that is not ASCII, and no byte
string in them encodes a text without zero that is not ASCII. -/
def KeptEach : List Value → Prop
  | [] => True
  | v :: r => v.Kept ∧ KeptEach r

end

/-! ### Texts and byte strings -/

/-- The bytes of a text, shown as a text, are the text just if it is ASCII. -/
theorem latin1_encode_iff (s : String) : latin1 (Utf8.encode s) = s ↔ Utf8.IsAscii s := by
  constructor
  · intro h
    rw [← Utf8.length_encode_eq_iff]
    conv_rhs => rw [← h, latin1, String.toList_ofList, List.length_map]
  · intro h
    rw [latin1, Utf8.encode_of_ascii h, List.map_map]
    refine (congrArg String.ofList ?_).trans String.ofList_toList
    refine (List.map_congr_left fun c hc => ?_).trans (List.map_id _)
    have hc : c.toNat < 0x80 := h c hc
    have hbyte : (UInt8.ofNat c.toNat).toNat = c.toNat :=
      UInt8.toNat_ofNat_of_lt' (Nat.lt_trans hc (by decide))
    rw [Function.comp_apply, hbyte, Char.ofNat_toNat, id_eq]

/-- The bytes of a text are its encoding just if it is ASCII. -/
theorem getBytes_eq_encode_iff (s : String) :
    (Value.text s).getBytes = Utf8.encode s ↔ Utf8.IsAscii s := by
  change s.toList.map (fun c => UInt8.ofNat c.toNat) = Utf8.encode s ↔ _
  constructor
  · intro h
    rw [← Utf8.length_encode_eq_iff, ← h, List.length_map]
  · exact fun h => (Utf8.encode_of_ascii h).symm

theorem str_returned_text_iff (s : String) :
    (Value.text s).returned.str = s ↔ (Value.text s).Kept := by
  rw [returned, Kept]
  split
  · rename_i h
    rw [str, latin1_encode_iff]
    exact ⟨fun hs _ => hs, fun hs => hs h⟩
  · rename_i h
    exact ⟨fun _ hs => absurd hs h, fun _ => rfl⟩

/-- A byte string comes back as it is, or as the text that it encodes. -/
theorem returned_bytes_cases (bs : Bytes) :
    ((Value.bytes bs).returned = .bytes bs ∧ (Value.bytes bs).Kept) ∨
      ∃ s, Utf8.encode s = bs ∧ (Value.bytes bs).returned = .text s ∧
        ((Value.bytes bs).Kept ↔ Utf8.IsAscii s) := by
  rw [returned, Kept]
  cases hs : Utf8.text? bs with
  | none => exact .inl ⟨rfl, nofun⟩
  | some s =>
    dsimp only
    by_cases hzero : '\x00' ∈ s.toList
    · rw [if_pos hzero]
      refine .inl ⟨rfl, fun s' hs' h => ?_⟩
      obtain rfl := Option.some.inj hs'
      exact absurd hzero h
    · rw [if_neg hzero]
      refine .inr ⟨s, Utf8.encode_of_text? hs, rfl, fun h => h s rfl hzero, fun h s' hs' _ => ?_⟩
      obtain rfl := Option.some.inj hs'
      exact h

theorem str_returned_bytes_iff (bs : Bytes) :
    (Value.bytes bs).returned.str = latin1 bs ↔ (Value.bytes bs).Kept := by
  rcases returned_bytes_cases bs with ⟨hr, hkept⟩ | ⟨s, rfl, hr, hkept⟩
  · rw [hr]
    exact iff_of_true rfl hkept
  · rw [hr, hkept, ← latin1_encode_iff]
    exact eq_comm

theorem getBytes_returned_bytes_iff (bs : Bytes) :
    (Value.bytes bs).returned.getBytes = bs ↔ (Value.bytes bs).Kept := by
  rcases returned_bytes_cases bs with ⟨hr, hkept⟩ | ⟨s, rfl, hr, hkept⟩
  · rw [hr]
    exact iff_of_true rfl hkept
  · rw [hr, hkept, getBytes_eq_encode_iff]

/-! ### Values of any depth -/

mutual

/-- **A value keeps its text just if all its texts and byte strings do.**  The text of a list
gives the texts of its elements back, so a change in one of them shows at every level. -/
theorem str_returned_iff : (v : Value) → v.Discrete → (v.returned.str = v.str ↔ v.Kept)
  | .int _, _ => iff_of_true rfl trivial
  | .boolean b, _ => by
    cases b <;> exact iff_of_true rfl trivial
  | .text s, _ => str_returned_text_iff s
  | .bytes bs, _ => str_returned_bytes_iff bs
  | .list elements, h => by
    rw [returned, Kept, str_list, str_list, ← strs_returnedEach_iff elements h]
    constructor
    · intro hs
      have hsplit := congrArg Word.splitText hs
      rw [Word.splitText_listText, Word.splitText_listText] at hsplit
      exact Except.ok.inj hsplit
    · exact congrArg Word.listText

theorem strs_returnedEach_iff : (vs : List Value) → DiscreteEach vs →
    ((returnedEach vs).map str = vs.map str ↔ KeptEach vs)
  | [], _ => iff_of_true rfl trivial
  | v :: r, h => by
    rw [returnedEach, KeptEach, List.map_cons, List.map_cons, List.cons.injEq,
      str_returned_iff v h.1, strs_returnedEach_iff r h.2]

end

/-- What keeps its text keeps its bytes. -/
theorem getBytes_of_str_eq {v v' : Value} (h : v'.str = v.str) : v'.getBytes = v.getBytes := by
  rw [← getBytes_plain v', ← getBytes_plain v, plain, plain, h]

end Value

/-! ### The conversion -/

namespace Marshal

/-- A string of the host is a text if its bytes are the encoding of one without zero. -/
theorem ofBytes_eq (bs : Bytes) : ofBytes bs = (Value.bytes bs).returned := by
  rw [ofBytes, Value.returned]
  cases hs : Utf8.text? bs with
  | none => exact ite_self _
  | some s =>
    have hlayout := Utf8.isLayout_encode s
    rw [Utf8.encode_of_text? hs] at hlayout
    dsimp only
    by_cases hzero : '\x00' ∈ s.toList
    · rw [if_pos hzero, if_neg fun h => hlayout.1 h hzero]
    · rw [if_neg hzero, if_pos (hlayout.2 hzero)]

theorem ofBytes_encode (s : String) : ofBytes (Utf8.encode s) = (Value.text s).returned := by
  rw [ofBytes_eq, Value.returned, Value.returned, Utf8.text?_encode]

mutual

/-- What comes back shows the same to the host, if no double becomes an integer. -/
theorem shown_returned : (v : Value) → v.Settled → v.returned.shown = v.shown
  | .empty, _ | .int _, _ | .boolean _, _ => rfl
  | .double x, h => congrArg Value.shown h
  | .bytes bs, _ => (congrArg Value.shown (ofBytes_eq bs)).symm.trans (shown_ofBytes bs)
  | .text s, _ | .foreign _ s, _ =>
    (congrArg Value.shown (ofBytes_encode s)).symm.trans (shown_ofBytes _)
  | .list elements, h => by
    rw [Value.returned, Value.shown, Value.shown, shown_returnedEach elements h]

theorem shown_returnedEach : (vs : List Value) → Value.SettledEach vs →
    Value.shownEach (Value.returnedEach vs) = Value.shownEach vs
  | [], _ => rfl
  | v :: r, h => by
    rw [Value.returnedEach, Value.shownEach, Value.shownEach, shown_returned v h.1,
      shown_returnedEach r h.2]

end

end Marshal
end CommandBridge
