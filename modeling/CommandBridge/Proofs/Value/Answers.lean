/-
# The text of a value answers for the value

A value is read as bytes, as a list or as an integer from what it carries, and a text
by taking it apart.  The two ways agree (`plain_answers_iff`): printing and reading are
inverse for bytes (`getBytes_plain`), for lists (`getList_plain`) and for all integers
but the least (`getInt_plain_iff`), whose text cannot be read (`least_unreadable`).
-/

import CommandBridge.Proofs.Bytes.Decoding
import CommandBridge.Proofs.Number.Literal
import CommandBridge.Proofs.Value.ListText

namespace CommandBridge
namespace Value

/-! ### Bytes -/

/-- The characters of a byte string are its bytes. -/
theorem map_toList_latin1 (bs : Bytes) :
    (latin1 bs).toList.map (fun c => UInt8.ofNat c.toNat) = bs := by
  rw [latin1, String.toList_ofList, List.map_map]
  refine (List.map_congr_left fun b _ => ?_).trans (List.map_id bs)
  rw [Function.comp_apply, Utf8.toNat_ofNat_byte, UInt8.ofNat_toNat, id_eq]

theorem getBytes_plain (v : Value) : v.plain.getBytes = v.getBytes := by
  cases v with
  | bytes bs => exact map_toList_latin1 bs
  | _ => rfl

/-! ### Integers -/

theorem getInt_text (s : String) : (Value.text s).getInt =
    match Integer.literal (Text.trimChars s.toList) with
    | .ok i => .ok i
    | .error .malformed => .error (.notInteger s)
    | .error (.overflow o) => .error (.overflow o) := rfl

/-- What carries no integer is read by its text. -/
theorem getInt_plain_of_int? {v : Value} (h : v.int? = none) : v.plain.getInt = v.getInt := by
  have hkind : v.plain.int? = none := rfl
  have htext : v.plain.str = v.str := rfl
  unfold getInt
  rw [hkind, htext, h]

theorem getInt_plain_int (i : Int64) : (Value.int i).plain.getInt =
    if i = Int64.minValue then .error (.notInteger (toString i.toInt)) else .ok i := by
  rw [plain, getInt_text]
  change (match Integer.literal (Text.trimChars (toString i.toInt).toList) with
    | .ok i => Except.ok i
    | .error .malformed => Except.error (AccessError.notInteger (toString i.toInt))
    | .error (.overflow o) => Except.error (AccessError.overflow o)) = _
  rw [Integer.trimChars_toString, Integer.literal_toString]
  by_cases hi : i = Int64.minValue
  · rw [if_pos hi, if_pos hi]
  · rw [if_neg hi, if_neg hi]

theorem getInt_plain_iff (v : Value) :
    v.plain.getInt = v.getInt ↔ v ≠ .int Int64.minValue := by
  cases v with
  | int i =>
    rw [getInt_plain_int]
    change _ = Except.ok i ↔ _
    by_cases hi : i = Int64.minValue
    · subst hi
      exact ⟨nofun, fun h => absurd rfl h⟩
    · rw [if_neg hi]
      exact ⟨fun _ h => hi (Value.int.inj h), fun _ => rfl⟩
  | boolean b => cases b <;> exact ⟨fun _ => nofun, fun _ => rfl⟩
  | _ => exact ⟨fun _ => nofun, fun _ => getInt_plain_of_int? rfl⟩

/-- **The text of a value answers as the value does**: it has the same bytes, it has the
same elements as far as their texts go or is no list for the same reason, and it is the
same integer or none for the same reason, unless the value is the least integer. -/
theorem plain_answers_iff (v : Value) :
    v.plain.getBytes = v.getBytes ∧
      v.plain.getList = v.getList.map (·.map plain) ∧
      (v.plain.getInt = v.getInt ↔ v ≠ .int Int64.minValue) :=
  ⟨getBytes_plain v, getList_plain v, getInt_plain_iff v⟩

/-- The least integer is printed as a text that is no integer. -/
theorem least_unreadable :
    (Value.int Int64.minValue).getInt = .ok Int64.minValue ∧
      (Value.int Int64.minValue).plain = .text "-9223372036854775808" ∧
      (Value.text "-9223372036854775808").getInt =
        .error (.notInteger "-9223372036854775808") :=
  ⟨rfl, rfl, rfl⟩

end Value
end CommandBridge
