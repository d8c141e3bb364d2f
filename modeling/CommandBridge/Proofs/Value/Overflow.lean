/-
# Overflow of numbers in texts

Two results are computed from what a text says.  A literal with a minus sign is the negation
of the word behind the sign, and an index is the last position of a list less the word
behind `end-`.  Both words are read by a reader that takes a sign of its own, so they range
over all words of 64 bits, the least one included, and the result need not be a word.

`Negates` and `StepsBack` tell from the grammar alone which word is negated or subtracted.
The negation overflows for one number only, minus the least word in hexadecimal digits
(`literal_eq_overflow_iff_negatesLeast`), and the subtraction for the indices that count far
enough beyond the end of the list (`overruns_iff`).  Nothing is read from such a text, and it
is not refused as one that is no integer or no index either (`overflow_iff`).
-/

import CommandBridge.Builtin.Lists
import CommandBridge.Proofs.Value.IntegerSyntax

namespace CommandBridge
namespace Integer

variable {cs : List Char} {m : Int64}

/-! ### Negation -/

/-- Only the least word has no negation among the words. -/
theorem overflows_neg_iff : Overflows (-m.toInt) ↔ m = Int64.minValue := by
  have hle := Int64.le_toInt m
  have hlt := Int64.toInt_lt m
  have hmin := ne_minValue_iff (i := m)
  rw [Overflows]
  constructor
  · intro h
    by_contra hne
    have := hmin.1 hne
    omega
  · rintro rfl
    decide

/-- A minus sign, the mark of the hexadecimal base, another minus sign and the digits of the
least word. -/
def NegatesLeast (cs : List Char) : Prop :=
  ∃ x ds, (x = 'x' ∨ x = 'X') ∧ cs = '-' :: '0' :: x :: '-' :: ds ∧
    Digits 16 ds 0x8000000000000000

/-- The least word is read behind a sign if it has a minus sign of its own. -/
theorem operand_minValue_iff : Operand cs Int64.minValue.toInt ↔
    ∃ x ds, (x = 'x' ∨ x = 'X') ∧ cs = '0' :: x :: '-' :: ds ∧
      Digits 16 ds 0x8000000000000000 := by
  have hmin : Int64.minValue.toInt = -0x8000000000000000 := rfl
  rw [hmin]
  constructor
  · generalize hz : (-0x8000000000000000 : Int) = z
    intro h
    cases h with
    | decimal => omega
    | @hexadecimal x ds _ hx h =>
      cases h with
      | unsigned => omega
      | plus => omega
      | @minus ds n h =>
        obtain rfl : n = 0x8000000000000000 := by omega
        exact ⟨x, ds, hx, rfl, h⟩
  · rintro ⟨x, ds, hx, rfl, h⟩
    exact .hexadecimal hx (.minus h)

theorem negates_minValue_iff : Negates cs Int64.minValue ↔ NegatesLeast cs := by
  simp only [Negates, operand_minValue_iff, NegatesLeast]
  constructor
  · rintro ⟨_, rfl, x, ds, hx, rfl, h⟩
    exact ⟨x, ds, hx, rfl, h⟩
  · rintro ⟨x, ds, hx, rfl, h⟩
    exact ⟨_, rfl, x, ds, hx, rfl, h⟩

/-- **A literal overflows for one number only.** -/
theorem literal_eq_overflow_iff_negatesLeast {o : Overflow} :
    literal cs = .error (.overflow o) ↔
      NegatesLeast cs ∧ o.operation = .negate ∧ o.exact = 0x8000000000000000 := by
  rw [literal_eq_overflow_iff, ← negates_minValue_iff]
  constructor
  · rintro ⟨m, hm, ho, hexact⟩
    obtain rfl := overflows_neg_iff.1 (hexact ▸ o.overflows)
    exact ⟨hm, ho, hexact⟩
  · rintro ⟨hm, ho, hexact⟩
    exact ⟨_, hm, ho, hexact⟩

end Integer

namespace Value
open Integer

/-- A value is read with an overflow as its trimmed text is. -/
theorem getInt_eq_overflow_iff {v : Value} {o : Overflow} : v.getInt = .error (.overflow o) ↔
    v.int? = none ∧ literal (Text.trimChars v.str.toList) = .error (.overflow o) := by
  unfold getInt
  cases v.int? with
  | some i => exact iff_of_false nofun nofun
  | none =>
    rw [and_iff_right rfl]
    dsimp only
    cases literal (Text.trimChars v.str.toList) with
    | ok i => exact iff_of_false nofun nofun
    | error r =>
      cases r with
      | malformed => exact iff_of_false nofun nofun
      | overflow cause =>
        rw [Except.error.injEq, Except.error.injEq, AccessError.overflow.injEq,
          Refusal.overflow.injEq]

end Value

namespace Builtin
open Integer

variable {index : Value} {length : Nat} {cs : List Char} {back p : Int64} {o : Overflow}

/-! ### Positions counted from the end -/

/-- The characters are an index counted from the end, which subtracts `back` from the last
position. -/
inductive StepsBack : List Char → Int64 → Prop where
  | last : StepsBack "end".toList 0
  | before {r : List Char} {back : Int64} (h : Signed 10 r back.toInt) :
      StepsBack ("end-".toList ++ r) back

/-- `end-`, a minus sign and the decimal digits of `n`, where minus `n` is a word; the
position `n` places behind the last one of the list is the second argument, and it is
beyond all words. -/
inductive Overruns (length : Nat) : List Char → Int → Prop where
  | mk {ds : List Char} {n : Nat} (h : Digits 10 ds n) (hn : n ≤ 0x8000000000000000)
      (hover : 0x8000000000000000 < length + n) :
      Overruns length ("end--".toList ++ ds) (length - 1 + n)

/-- Counted from the end of the empty list, no position is beyond all words. -/
theorem Overruns.length_pos {exact : Int} (h : Overruns length cs exact) : 0 < length := by
  cases h
  omega

theorem stepsBack_iff {r : List Char} : StepsBack ("end".toList ++ r) back ↔
    (r = [] ∧ back = 0) ∨ ∃ s, r = '-' :: s ∧ Signed 10 s back.toInt := by
  constructor
  · generalize hcs : "end".toList ++ r = cs
    intro h
    cases h with
    | last => exact .inl ⟨List.append_right_eq_self.1 hcs, rfl⟩
    | @before s _ h => exact .inr ⟨s, List.append_cancel_left hcs, h⟩
  · rintro (⟨rfl, rfl⟩ | ⟨s, rfl, h⟩)
    · exact .last
    · exact .before h

theorem StepsBack.isPrefix (h : StepsBack cs back) : "end".toList <+: cs := by
  cases h with
  | last => exact List.prefix_rfl
  | @before r _ _ => exact ⟨'-' :: r, rfl⟩

/-! ### Indices -/

/-- An index without `end` is read as an integer. -/
theorem indexPosition_withoutEnd (h : ¬"end".toList <+: Text.trimChars index.str.toList) :
    (indexPosition index length = .ok p ↔ index.getInt = .ok p) ∧
      (indexPosition index length = .error (.overflow o) ↔
        index.getInt = .error (.overflow o)) := by
  have htrim : (Text.trim index.str).toList = Text.trimChars index.str.toList :=
    String.toList_ofList
  rw [← htrim] at h
  rw [indexPosition, Text.dropMarker?_eq_none_iff.2 h]
  dsimp only
  cases index.getInt with
  | ok i => simp
  | error e => cases e <;> simp

/-- Behind `end` stands nothing, or what is read as a minus sign and a plain integer. -/
theorem indexPosition_behindEnd {r : String}
    (h : "end".toList ++ r.toList = Text.trimChars index.str.toList) :
    indexPosition index length = if r.isEmpty then positionBack length 0 else
      (accept ((Text.dropMarker? "-" r).bind fun s => plain? 10 s.toList)).bind
        (positionBack length) := by
  have htrim : (Text.trim index.str).toList = "end".toList ++ r.toList :=
    String.toList_ofList.trans h.symm
  rw [indexPosition, Text.dropMarker?_eq_some_iff.2 htrim]

theorem StepsBack.indexPosition_eq (h : StepsBack (Text.trimChars index.str.toList) back) :
    indexPosition index length = positionBack length back := by
  obtain ⟨r, hr⟩ := h.isPrefix
  rw [← hr, stepsBack_iff] at h
  rw [← String.toList_ofList (l := r)] at hr
  rw [indexPosition_behindEnd hr]
  rcases h with ⟨rfl, rfl⟩ | ⟨s, rfl, h⟩
  · rfl
  · have hminus : Text.dropMarker? "-" (String.ofList ('-' :: s)) = some (String.ofList s) :=
      Text.dropMarker?_eq_some_iff.2 (by simp)
    have hne : ¬(String.ofList ('-' :: s)).isEmpty := by simp
    rw [if_neg hne, hminus, Option.bind_some, String.toList_ofList,
      (plain?_eq_some_iff (by decide)).2 h]
    rfl

/-- What stands behind `end` otherwise is no index. -/
theorem indexPosition_eq_malformed (hend : "end".toList <+: Text.trimChars index.str.toList)
    (hno : ∀ back, ¬StepsBack (Text.trimChars index.str.toList) back) :
    indexPosition index length = .error .malformed := by
  obtain ⟨r, hr⟩ := hend
  simp only [← hr, stepsBack_iff] at hno
  rw [← String.toList_ofList (l := r)] at hr
  have hne : ¬(String.ofList r).isEmpty := fun h => hno 0 (.inl ⟨by simpa using h, rfl⟩)
  have hread : ∀ back, ((Text.dropMarker? "-" (String.ofList r)).bind
      fun s => plain? 10 s.toList) ≠ some back := by
    intro back hback
    obtain ⟨s, hs, hback⟩ := Option.bind_eq_some_iff.1 hback
    have hs := Text.dropMarker?_eq_some_iff.1 hs
    rw [String.toList_ofList] at hs
    exact hno back (.inr ⟨s.toList, hs, (plain?_eq_some_iff (by decide)).1 hback⟩)
  rw [indexPosition_behindEnd hr, if_neg hne, accept_eq_malformed hread]
  rfl

/-- **An index means an integer or a position counted from the end.** -/
theorem indexPosition_eq_ok_iff : indexPosition index length = .ok p ↔
    (¬"end".toList <+: Text.trimChars index.str.toList ∧ index.getInt = .ok p) ∨
      ∃ back, StepsBack (Text.trimChars index.str.toList) back ∧
        p.toInt = length - 1 - back.toInt := by
  by_cases hend : "end".toList <+: Text.trimChars index.str.toList
  · rw [or_iff_right fun h => h.1 hend]
    constructor
    · intro h
      by_cases hback : ∃ back, StepsBack (Text.trimChars index.str.toList) back
      · obtain ⟨back, hback⟩ := hback
        exact ⟨back, hback, checked_eq_ok_iff.1 (hback.indexPosition_eq.symm.trans h)⟩
      · cases (indexPosition_eq_malformed hend (not_exists.1 hback)).symm.trans h
    · rintro ⟨back, hback, hp⟩
      rw [hback.indexPosition_eq]
      exact checked_eq_ok_iff.2 hp
  · rw [(indexPosition_withoutEnd (o := ⟨.negate, _, .inr le_rfl⟩) hend).1, and_iff_right hend,
      or_iff_left fun ⟨_, h, _⟩ => hend h.isPrefix]

/-- An index overflows as an integer does, or where no word is the position. -/
theorem indexPosition_eq_overflow_iff : indexPosition index length = .error (.overflow o) ↔
    (¬"end".toList <+: Text.trimChars index.str.toList ∧
        index.getInt = .error (.overflow o)) ∨
      ∃ back, StepsBack (Text.trimChars index.str.toList) back ∧ o.operation = .subtract ∧
        o.exact = length - 1 - back.toInt := by
  by_cases hend : "end".toList <+: Text.trimChars index.str.toList
  · rw [or_iff_right fun h => h.1 hend]
    constructor
    · intro h
      by_cases hback : ∃ back, StepsBack (Text.trimChars index.str.toList) back
      · obtain ⟨back, hback⟩ := hback
        obtain ⟨_, ho, hexact⟩ := checked_eq_error_iff.1 (hback.indexPosition_eq.symm.trans h)
        obtain rfl := Refusal.overflow.inj ho
        exact ⟨back, hback, hexact⟩
      · cases (indexPosition_eq_malformed hend (not_exists.1 hback)).symm.trans h
    · rintro ⟨back, hback, ho⟩
      rw [hback.indexPosition_eq]
      exact checked_eq_error_iff.2 ⟨o, rfl, ho⟩
  · rw [(indexPosition_withoutEnd (p := 0) hend).2, and_iff_right hend,
      or_iff_left fun ⟨_, h, _⟩ => hend h.isPrefix]

/-! ### Subtraction -/

/-- The last position of a list is a word. -/
theorem not_overflows_last (hlength : length < 0x8000000000000000) :
    ¬Overflows (length - 1) := by
  rw [Overflows]
  omega

/-- **The subtraction leaves the range of the words behind a second minus sign only**, and
only if the position is far enough beyond the end. -/
theorem overruns_iff (hlength : length < 0x8000000000000000) {exact : Int} :
    (∃ back, StepsBack cs back ∧ Overflows exact ∧ exact = length - 1 - back.toInt) ↔
      Overruns length cs exact := by
  constructor
  · rintro ⟨back, h, hover, hexact⟩
    have hle := Int64.le_toInt back
    have hlt := Int64.toInt_lt back
    rw [Overflows] at hover
    -- without a second sign `back` is not negative, and the position is at most the last one
    cases h with
    | last =>
      have : (0 : Int64).toInt = 0 := rfl
      omega
    | before h =>
      generalize hz : back.toInt = z at h hexact hle hlt
      cases h with
      | unsigned => omega
      | plus => omega
      | @minus ds n h =>
        obtain rfl : exact = length - 1 + n := by omega
        exact .mk h (by omega) (by omega)
  · rintro @⟨ds, n, h, hn, hover⟩
    have hback : (Int64.ofInt (-n)).toInt = -n := Int64.toInt_ofInt_of_le (by omega) (by omega)
    refine ⟨Int64.ofInt (-n), .before (r := '-' :: ds) ?_, ?_, ?_⟩
    · rw [hback]
      exact .minus h
    · rw [Overflows]
      omega
    · rw [hback]
      omega

/-- **An index overflows as an integer, or where it is beyond all words.** -/
theorem indexPosition_eq_overflow_iff_overruns (hlength : length < 0x8000000000000000) :
    indexPosition index length = .error (.overflow o) ↔ index.getInt = .error (.overflow o) ∨
      (Overruns length (Text.trimChars index.str.toList) o.exact ∧ o.operation = .subtract) := by
  have hsign : index.getInt = .error (.overflow o) →
      ¬"end".toList <+: Text.trimChars index.str.toList := by
    rw [Value.getInt_eq_overflow_iff, literal_eq_overflow_iff_negatesLeast]
    rintro ⟨-, ⟨x, ds, -, hcs, -⟩, -⟩ ⟨r, hr⟩
    cases hr.trans hcs
  rw [indexPosition_eq_overflow_iff, ← overruns_iff hlength]
  refine or_congr (and_iff_right_of_imp hsign) ⟨?_, ?_⟩
  · rintro ⟨back, hback, ho, hexact⟩
    exact ⟨⟨back, hback, o.overflows, hexact⟩, ho⟩
  · rintro ⟨⟨back, hback, -, hexact⟩, ho⟩
    exact ⟨back, hback, ho, hexact⟩

/-! ### Where texts overflow -/

/-- **No number in a text overflows, with two exceptions.**  Reading a literal negates the
word behind a minus sign, or it computes nothing.  The negation overflows if and only if that
word is the least one, which is read if its hexadecimal digits have a minus sign of their
own.  An index is read as an integer, or the word behind `end-` is subtracted from the last
position, which is in range.  The subtraction overflows if and only if there is another
minus sign and the position is beyond all words.  A list has fewer than 2 ^ 63 elements,
because its size in bytes is a word. -/
theorem overflow_iff {length : Nat} (hlength : length < 0x8000000000000000)
    (numeral : List Char) (index : Value) :
    ((∀ i, literal numeral = .ok i ↔
          Takes numeral i ∨ ∃ m, Negates numeral m ∧ i.toInt = -m.toInt) ∧
        ((∃ m, Negates numeral m ∧ Overflows (-m.toInt)) ↔ NegatesLeast numeral) ∧
        ∀ o, literal numeral = .error (.overflow o) ↔
          NegatesLeast numeral ∧ o.operation = .negate ∧ o.exact = 0x8000000000000000) ∧
      (∀ p, indexPosition index length = .ok p ↔
        (¬"end".toList <+: Text.trimChars index.str.toList ∧ index.getInt = .ok p) ∨
          ∃ back, StepsBack (Text.trimChars index.str.toList) back ∧
            p.toInt = length - 1 - back.toInt) ∧
      ¬Overflows (length - 1) ∧
      ∀ o, indexPosition index length = .error (.overflow o) ↔
        (index.int? = none ∧ NegatesLeast (Text.trimChars index.str.toList) ∧
            o.operation = .negate ∧ o.exact = 0x8000000000000000) ∨
          (Overruns length (Text.trimChars index.str.toList) o.exact ∧
            o.operation = .subtract) := by
  refine ⟨⟨fun i => literal_eq_ok_iff, ?_, fun o => literal_eq_overflow_iff_negatesLeast⟩,
    fun p => indexPosition_eq_ok_iff, not_overflows_last hlength, fun o => ?_⟩
  · simp only [overflows_neg_iff, exists_eq_right, negates_minValue_iff]
  · rw [indexPosition_eq_overflow_iff_overruns hlength, Value.getInt_eq_overflow_iff,
      literal_eq_overflow_iff_negatesLeast]

/-- Both exceptions, the second one with the first index that overflows for three
elements. -/
theorem overflow_iff_three : 3 < 0x8000000000000000 ∧
    (∃ o, literal "-0X-08000000000000000".toList = .error (.overflow o)) ∧
    ∃ o, indexPosition (.text " end--9223372036854775806\n") 3 = .error (.overflow o) := by
  have hlength : 3 < 0x8000000000000000 := by decide
  have hleast : NegatesLeast "-0X-08000000000000000".toList :=
    ⟨'X', "08000000000000000".toList, .inr rfl, by decide +kernel,
      (natural?_eq_some_iff (by decide) _ _).1 (by decide +kernel)⟩
  have hbeyond : Overruns 3 (Text.trimChars " end--9223372036854775806\n".toList)
      0x8000000000000000 := by
    have hdigits : Digits 10 "9223372036854775806".toList 9223372036854775806 :=
      (natural?_eq_some_iff (by decide) _ _).1 (by decide +kernel)
    have htrim : Text.trimChars " end--9223372036854775806\n".toList =
        "end--".toList ++ "9223372036854775806".toList := by decide +kernel
    rw [htrim]
    exact @Overruns.mk 3 _ _ hdigits (by decide) (by decide)
  obtain ⟨⟨-, -, hliteral⟩, -, -, hindex⟩ := overflow_iff hlength
    "-0X-08000000000000000".toList (.text " end--9223372036854775806\n")
  exact ⟨hlength, ⟨⟨.negate, 0x8000000000000000, by decide⟩, (hliteral _).2 ⟨hleast, rfl, rfl⟩⟩,
    ⟨.subtract, 0x8000000000000000, by decide⟩, (hindex _).2 (.inr ⟨hbeyond, rfl⟩)⟩

/-- The negation of the least word and an index far beyond the end overflow. -/
theorem signs_overflow :
    (∃ o, (Value.text "-0x-8000000000000000").getInt = .error (.overflow o) ∧
      o.operation = .negate ∧ o.exact = 0x8000000000000000) ∧
    ∃ o, indexPosition (.text "end--9223372036854775808") 1 = .error (.overflow o) ∧
      o.operation = .subtract ∧ o.exact = 0x8000000000000000 :=
  ⟨⟨⟨.negate, 0x8000000000000000, by decide⟩, by decide +kernel, rfl, rfl⟩,
    ⟨.subtract, 0x8000000000000000, by decide⟩, by decide +kernel, rfl, rfl⟩

end Builtin
end CommandBridge
