/-
# Which strings of the host are texts

The layout test accepts the byte strings that are made of whole units, one after the
other (`Utf8.isLayout_iff`):

| unit | lead byte | continuation bytes |
| --- | --- | ---: |
| single byte | `01` to `7F` | 0 |
| two bytes | `C0` to `DF` | 1 |
| three bytes | `E0` to `EF` | 2 |
| four bytes | `F0` to `F7` | 3 |
| five bytes | `F8` to `FB` | 4 |
| six bytes | `FC` and `FD` | 5 |

Well-formed text without a zero byte is made of such units and nothing that holds a zero
byte is, so a string becomes a text just if it is well-formed without zero, and all others
keep their bytes as byte strings (`Marshal.string_classified`).
-/

import CommandBridge.Proofs.Marshal.Returned

namespace CommandBridge
namespace Utf8

/-- The ranges of the lead bytes, by the number of continuation bytes that they announce. -/
def leadRanges : List (UInt8 × UInt8) :=
  [(0x01, 0x7F), (0xC0, 0xDF), (0xE0, 0xEF), (0xF0, 0xF7), (0xF8, 0xFB), (0xFC, 0xFD)]

/-- A lead byte and exactly the continuation bytes that it announces. -/
def IsUnit (u : Bytes) : Prop :=
  ∃ lead more range, u = lead :: more ∧ leadRanges[more.length]? = some range ∧
    Within range lead ∧ ∀ b ∈ more, Within (0x80, 0xBF) b

/-- The tests of a lead byte by masks are tests for its range. -/
theorem layoutFollowers?_eq_some_iff {lead : UInt8} {n : Nat} :
    layoutFollowers? lead = some n ↔ ∃ range, leadRanges[n]? = some range ∧ Within range lead := by
  have hbound : ∀ a : UInt8, ∀ n ∈ layoutFollowers? a, n < leadRanges.length :=
    forall_byte (by decide +kernel)
  have hrange : ∀ a : UInt8, ∀ n : Fin leadRanges.length, layoutFollowers? a = some n.val ↔
      leadRanges[n].1 ≤ a ∧ a ≤ leadRanges[n].2 := forall_byte (by decide +kernel)
  constructor
  · intro h
    have hn := hbound lead n h
    exact ⟨leadRanges[n], List.getElem?_eq_getElem hn, (hrange lead ⟨n, hn⟩).1 h⟩
  · rintro ⟨range, hget, hlead⟩
    obtain ⟨hn, rfl⟩ := List.getElem?_eq_some_iff.1 hget
    exact (hrange lead ⟨n, hn⟩).2 hlead

theorem isUnit_iff {u : Bytes} : IsUnit u ↔ ∃ lead more, u = lead :: more ∧
    layoutFollowers? lead = some more.length ∧ ∀ b ∈ more, isContinuation b = true := by
  constructor
  · rintro ⟨lead, more, range, hu, hget, hlead, hmore⟩
    exact ⟨lead, more, hu, layoutFollowers?_eq_some_iff.2 ⟨range, hget, hlead⟩,
      fun b hb => (isContinuation_iff b).2 (hmore b hb)⟩
  · rintro ⟨lead, more, hu, hlead, hmore⟩
    obtain ⟨range, hget, hlead⟩ := layoutFollowers?_eq_some_iff.1 hlead
    exact ⟨lead, more, range, hu, hget, hlead, fun b hb => (isContinuation_iff b).1 (hmore b hb)⟩

/-- No unit holds a zero byte. -/
theorem IsUnit.zero_not_mem {u : Bytes} (h : IsUnit u) : (0 : UInt8) ∉ u := by
  obtain ⟨lead, more, rfl, hlead, hmore⟩ := isUnit_iff.1 h
  rw [List.mem_cons, not_or]
  constructor
  · rintro rfl
    cases hlead
  · intro hzero
    exact absurd (hmore 0 hzero) (by decide)

/-- The pending continuation bytes stand first, and behind them whole units. -/
theorem exists_units_of_layoutFrom {n : Nat} {bs : Bytes} (h : layoutFrom n bs = true) :
    ∃ (more : Bytes) (units : List Bytes), bs = more ++ units.flatten ∧ more.length = n ∧
      (∀ b ∈ more, isContinuation b = true) ∧ ∀ u ∈ units, IsUnit u := by
  induction bs generalizing n with
  | nil =>
    cases n with
    | zero => exact ⟨[], [], rfl, rfl, nofun, nofun⟩
    | succ n => cases h
  | cons b r ih =>
    cases n with
    | zero =>
      rw [layoutFrom] at h
      split at h
      · cases h
      · rename_i n hlead
        obtain ⟨more, units, rfl, rfl, hmore, hunits⟩ := ih h
        have hunit : IsUnit (b :: more) := isUnit_iff.2 ⟨b, more, rfl, hlead, hmore⟩
        exact ⟨[], (b :: more) :: units, rfl, rfl, nofun, List.forall_mem_cons.2 ⟨hunit, hunits⟩⟩
    | succ n =>
      rw [layoutFrom, Bool.and_eq_true] at h
      obtain ⟨more, units, rfl, rfl, hmore, hunits⟩ := ih h.2
      exact ⟨b :: more, units, rfl, rfl, List.forall_mem_cons.2 ⟨h.1, hmore⟩, hunits⟩

theorem layoutFrom_unit {u : Bytes} (h : IsUnit u) (rest : Bytes) :
    layoutFrom 0 (u ++ rest) = layoutFrom 0 rest := by
  obtain ⟨lead, more, rfl, hlead, hmore⟩ := isUnit_iff.1 h
  rw [List.cons_append, layoutFrom, hlead]
  exact layoutFrom_append hmore rest

/-- **The layout test accepts what is made of whole units.** -/
theorem isLayout_iff (bs : Bytes) :
    isLayout bs = true ↔ ∃ units : List Bytes, (∀ u ∈ units, IsUnit u) ∧ bs = units.flatten := by
  constructor
  · intro h
    obtain ⟨more, units, rfl, hlen, -, hunits⟩ := exists_units_of_layoutFrom h
    obtain rfl := List.length_eq_zero_iff.1 hlen
    exact ⟨units, hunits, rfl⟩
  · rintro ⟨units, hunits, rfl⟩
    rw [isLayout]
    induction units with
    | nil => rfl
    | cons u units ih =>
      have hu := hunits u List.mem_cons_self
      rw [List.flatten_cons, layoutFrom_unit hu]
      exact ih fun v hv => hunits v (List.mem_cons_of_mem u hv)

theorem zero_not_mem_of_isLayout {bs : Bytes} (h : isLayout bs = true) : (0 : UInt8) ∉ bs := by
  obtain ⟨units, hunits, rfl⟩ := (isLayout_iff bs).1 h
  rw [List.mem_flatten]
  rintro ⟨u, hu, h0⟩
  exact (hunits u hu).zero_not_mem h0

/-- Of a text only the zero character has a zero byte. -/
theorem zero_not_mem_encode_iff (s : String) : (0 : UInt8) ∉ encode s ↔ '\x00' ∉ s.toList := by
  constructor
  · intro h hzero
    exact h (List.mem_flatMap.2 ⟨'\x00', hzero, by decide⟩)
  · intro h
    exact zero_not_mem_of_isLayout ((isLayout_encode s).2 h)

end Utf8

namespace Marshal

/-- A well-formed string without a zero byte becomes the text that it encodes. -/
theorem ofBytes_of_wellFormed {s : String} (h : (0 : UInt8) ∉ Utf8.encode s) :
    ofBytes (Utf8.encode s) = .text s := by
  rw [ofBytes_encode, Value.returned, if_neg ((Utf8.zero_not_mem_encode_iff s).1 h)]

/-- Any other string keeps its bytes. -/
theorem ofBytes_of_not_wellFormed {bs : Bytes} (h : ¬(Utf8.WellFormed bs ∧ (0 : UInt8) ∉ bs)) :
    ofBytes bs = .bytes bs := by
  rw [ofBytes]
  split
  · rename_i hlayout
    cases hs : Utf8.text? bs with
    | none => rfl
    | some s =>
      have hzero := Utf8.zero_not_mem_of_isLayout hlayout
      exact absurd ⟨⟨s, Utf8.encode_of_text? hs⟩, hzero⟩ h
  · rfl

theorem toTarget_string (h : Heap) (bs : Bytes) : toTarget h (.string bs) = .ok (ofBytes bs) := by
  rw [toTarget, convert]

/-- **Classification is exact and lossless.**  The layout test accepts just what is made of
whole units, so all well-formed text without a zero byte and nothing with one; and a string
of the host becomes the text that its bytes encode if they do so without a zero byte, and a
byte string of the same bytes otherwise. -/
theorem string_classified (h : Heap) (bs : Bytes) :
    (Utf8.isLayout bs = true ↔
      ∃ units : List Bytes, (∀ u ∈ units, Utf8.IsUnit u) ∧ bs = units.flatten) ∧
    (Utf8.WellFormed bs → (0 : UInt8) ∉ bs → Utf8.isLayout bs = true) ∧
    ((0 : UInt8) ∈ bs → Utf8.isLayout bs = false) ∧
    ((∃ s, toTarget h (.string bs) = .ok (.text s) ∧ Utf8.encode s = bs) ↔
      Utf8.WellFormed bs ∧ (0 : UInt8) ∉ bs) ∧
    (¬(Utf8.WellFormed bs ∧ (0 : UInt8) ∉ bs) → toTarget h (.string bs) = .ok (.bytes bs)) := by
  rw [toTarget_string]
  refine ⟨Utf8.isLayout_iff bs, ?_, ?_, ⟨?_, ?_⟩, fun hbs => ?_⟩
  · rintro ⟨s, rfl⟩ hzero
    exact (Utf8.isLayout_encode s).2 ((Utf8.zero_not_mem_encode_iff s).1 hzero)
  · intro hzero
    by_contra hlayout
    exact Utf8.zero_not_mem_of_isLayout (by simpa using hlayout) hzero
  · rintro ⟨s, hs, rfl⟩
    refine ⟨⟨s, rfl⟩, fun hzero => ?_⟩
    have hbytes : ofBytes (Utf8.encode s) = .bytes (Utf8.encode s) :=
      ofBytes_of_not_wellFormed fun h => h.2 hzero
    rw [hbytes] at hs
    cases hs
  · rintro ⟨⟨s, rfl⟩, hzero⟩
    exact ⟨s, congrArg Except.ok (ofBytes_of_wellFormed hzero), rfl⟩
  · exact congrArg Except.ok (ofBytes_of_not_wellFormed hbs)

end Marshal
end CommandBridge
