/-
# Which texts are integers

An integer is written as an optional sign and a magnitude: decimal digits, or `0x` or
`0X` and hexadecimal digits (`Integer.Numeral`).  White space may stand around it
(`Integer.Names`).  Reading a text as an integer follows this grammar in both directions
(`getInt_text_iff`), up to two exceptions (`least_unread_innerSign_read`).  The magnitude is read
as a word before its sign is applied, so that the least integer is not read.  And behind
`0x` a plain integer is read, with a sign of its own, so that texts with two signs are
integers too (`getInt_innerSign`).

What the reader does take is a grammar as well: a word (`Integer.Takes`), or a word whose
negation is computed (`Integer.Negates`).
-/

import CommandBridge.Proofs.Value.Answers
import CommandBridge.Proofs.Word.Concatenation
import Mathlib.Tactic.IntervalCases
import Mathlib.Tactic.SplitIfs

namespace CommandBridge
namespace Integer

/-! ### The grammar -/

/-- `c` is the digit with value `d` in the given base. -/
def IsDigit (base : Nat) (c : Char) (d : Nat) : Prop :=
  d < base ∧ ("0123456789abcdef".toList[d]? = some c ∨ "0123456789ABCDEF".toList[d]? = some c)

/-- One or more digits and the number that they are. -/
inductive Digits (base : Nat) : List Char → Nat → Prop where
  | one {c : Char} {d : Nat} (hd : IsDigit base c d) : Digits base [c] d
  | snoc {cs : List Char} {n : Nat} {c : Char} {d : Nat} (hcs : Digits base cs n)
      (hd : IsDigit base c d) : Digits base (cs ++ [c]) (base * n + d)

/-- The part of a numeral behind its sign. -/
inductive Magnitude : List Char → Nat → Prop where
  | decimal {cs : List Char} {n : Nat} (h : Digits 10 cs n) : Magnitude cs n
  | hexadecimal {x : Char} {cs : List Char} {n : Nat} (hx : x = 'x' ∨ x = 'X')
      (h : Digits 16 cs n) : Magnitude ('0' :: x :: cs) n

/-- The numerals and what they name. -/
inductive Numeral : List Char → Int → Prop where
  | unsigned {cs : List Char} {n : Nat} (h : Magnitude cs n) : Numeral cs n
  | plus {cs : List Char} {n : Nat} (h : Magnitude cs n) : Numeral ('+' :: cs) n
  | minus {cs : List Char} {n : Nat} (h : Magnitude cs n) : Numeral ('-' :: cs) (-n)

/-- The text is a numeral of `z` with white space around it. -/
def Names (t : String) (z : Int) : Prop :=
  ∃ front cs back, t.toList = front ++ cs ++ back ∧ (∀ c ∈ front, Text.isSpace c = true) ∧
    (∀ c ∈ back, Text.isSpace c = true) ∧ Numeral cs z

/-- A sign directly behind the mark of the hexadecimal base, and hexadecimal digits. -/
inductive InnerSign : List Char → Prop where
  | mk {x s : Char} {ds : List Char} {n : Nat} (hx : x = 'x' ∨ x = 'X') (hs : s = '+' ∨ s = '-')
      (h : Digits 16 ds n) : InnerSign ('0' :: x :: s :: ds)

/-- A sign or none, and then the mark of the hexadecimal base with a sign and digits behind
it. -/
def HasInnerSign (cs : List Char) : Prop :=
  ∃ sign r, sign ∈ [[], ['+'], ['-']] ∧ InnerSign r ∧ cs = sign ++ r

/-- With white space around it at most, the text is a sign or none, the mark of the
hexadecimal base, a sign and digits. -/
def InnerSigned (t : String) : Prop :=
  ∃ front cs back, t.toList = front ++ cs ++ back ∧ (∀ c ∈ front, Text.isSpace c = true) ∧
    (∀ c ∈ back, Text.isSpace c = true) ∧ HasInnerSign cs

/-! ### What is read -/

/-- Digits with one sign or none, and the number that they are. -/
inductive Signed (base : Nat) : List Char → Int → Prop where
  | unsigned {cs : List Char} {n : Nat} (h : Digits base cs n) : Signed base cs n
  | plus {cs : List Char} {n : Nat} (h : Digits base cs n) : Signed base ('+' :: cs) n
  | minus {cs : List Char} {n : Nat} (h : Digits base cs n) : Signed base ('-' :: cs) (-n)

/-- What is read behind the sign of a literal; behind the mark of the hexadecimal base there
may be another sign. -/
inductive Operand : List Char → Int → Prop where
  | decimal {cs : List Char} {n : Nat} (h : Digits 10 cs n) : Operand cs n
  | hexadecimal {x : Char} {cs : List Char} {z : Int} (hx : x = 'x' ∨ x = 'X')
      (h : Signed 16 cs z) : Operand ('0' :: x :: cs) z

/-- The characters are a literal without a minus sign. -/
def Takes (cs : List Char) (i : Int64) : Prop :=
  ∃ r, (cs = r ∨ cs = '+' :: r) ∧ Operand r i.toInt

/-- The characters are a literal with a minus sign, which is applied to the word `m`. -/
def Negates (cs : List Char) (m : Int64) : Prop :=
  ∃ r, cs = '-' :: r ∧ Operand r m.toInt

/-! ### Digits -/

theorem digitTable_iff {d : Nat} (hd : d < 16) (c : Char) :
    ("0123456789abcdef".toList[d]? = some c ∨ "0123456789ABCDEF".toList[d]? = some c) ↔
      d < 10 ∧ c.toNat = 48 + d ∨ 10 ≤ d ∧ (c.toNat = 87 + d ∨ c.toNat = 55 + d) := by
  have hchar : ∀ e : Char, some e = some c ↔ c.toNat = e.toNat := fun e =>
    ⟨fun h => by rw [Option.some.inj h], fun h => congrArg some (Char.toNat_inj.1 h.symm)⟩
  interval_cases d <;> simp [hchar]

theorem digit?_eq_some_iff {base : Nat} (hb : base ≤ 16) (c : Char) (d : Nat) :
    digit? base c = some d ↔ IsDigit base c d := by
  rw [IsDigit]
  unfold digit?
  dsimp only
  by_cases hd : d < 16
  · rw [digitTable_iff hd, Option.ite_none_right_eq_some, Option.some.injEq]
    split_ifs <;> omega
  · rw [Option.ite_none_right_eq_some, Option.some.injEq]
    refine ⟨fun h => ?_, fun h => ?_⟩ <;> omega

theorem IsDigit.toNat_cases {base : Nat} {c : Char} {d : Nat} (hb : base ≤ 16)
    (h : IsDigit base c d) : 48 ≤ c.toNat ∧ c.toNat ≤ 57 ∨
      10 < base ∧ (97 ≤ c.toNat ∧ c.toNat ≤ 102 ∨ 65 ≤ c.toNat ∧ c.toNat ≤ 70) := by
  obtain ⟨hd, hc⟩ := h
  rw [digitTable_iff (by omega)] at hc
  omega

theorem digitsFrom?_append_singleton (base acc : Nat) (cs : List Char) (c : Char) :
    digitsFrom? base acc (cs ++ [c]) =
      (digitsFrom? base acc cs).bind fun n => (digit? base c).map (base * n + ·) := by
  induction cs generalizing acc with
  | nil =>
    change (digit? base c).bind (fun d => some (base * acc + d)) = _
    rw [digitsFrom?, Option.bind_some, Option.map_eq_bind]
    rfl
  | cons e cs ih =>
    rw [List.cons_append, digitsFrom?, digitsFrom?, Option.bind_assoc]
    exact congrArg _ (funext fun d => ih (base * acc + d))

theorem natural?_append_singleton (base : Nat) (cs : List Char) (c : Char) :
    natural? base (cs ++ [c]) = if cs = [] then digit? base c else
      (natural? base cs).bind fun n => (digit? base c).map (base * n + ·) := by
  cases cs with
  | nil =>
    rw [if_pos rfl, List.nil_append, natural?, digitsFrom?]
    simp only [digitsFrom?, Nat.mul_zero, Nat.zero_add, Option.bind_fun_some]
  | cons e cs =>
    rw [if_neg (List.cons_ne_nil e cs), List.cons_append, natural?, natural?, ← List.cons_append,
      digitsFrom?_append_singleton]

theorem Digits.ne_nil {base : Nat} {cs : List Char} {n : Nat} (h : Digits base cs n) :
    cs ≠ [] := by
  cases h with
  | one => exact List.cons_ne_nil _ _
  | snoc => exact List.append_ne_nil_of_right_ne_nil _ (List.cons_ne_nil _ _)

/-- The reader takes the digits of a base and nothing else. -/
theorem natural?_eq_some_iff {base : Nat} (hb : base ≤ 16) (cs : List Char) (n : Nat) :
    natural? base cs = some n ↔ Digits base cs n := by
  constructor
  · induction cs using List.reverseRecOn generalizing n with
    | nil => exact nofun
    | append_singleton cs c ih =>
      intro h
      rw [natural?_append_singleton] at h
      split at h
      next hcs =>
        subst hcs
        exact .one ((digit?_eq_some_iff hb c n).1 h)
      next hcs =>
        obtain ⟨m, hm, h⟩ := Option.bind_eq_some_iff.1 h
        obtain ⟨d, hd, rfl⟩ := Option.map_eq_some_iff.1 h
        exact .snoc (ih m hm) ((digit?_eq_some_iff hb c d).1 hd)
  · intro h
    induction h with
    | @one c d hd =>
      exact (natural?_append_singleton base [] c).trans ((digit?_eq_some_iff hb c d).2 hd)
    | @snoc cs n c d hcs hd ih =>
      rw [natural?_append_singleton, if_neg hcs.ne_nil, ih, Option.bind_some,
        (digit?_eq_some_iff hb c d).2 hd, Option.map_some]

theorem Digits.isDigit_of_mem {base : Nat} {cs : List Char} {n : Nat} (h : Digits base cs n)
    {c : Char} (hc : c ∈ cs) : ∃ d, IsDigit base c d := by
  induction h with
  | one hd => exact ⟨_, List.mem_singleton.1 hc ▸ hd⟩
  | snoc _ hd ih =>
    rcases List.mem_append.1 hc with hc | hc
    · exact ih hc
    · exact ⟨_, List.mem_singleton.1 hc ▸ hd⟩

theorem Digits.ne_sign {base : Nat} {c : Char} {r : List Char} {n : Nat} (hb : base ≤ 16)
    (h : Digits base (c :: r) n) : c ≠ '-' ∧ c ≠ '+' := by
  obtain ⟨d, hd⟩ := h.isDigit_of_mem List.mem_cons_self
  have := hd.toNat_cases hb
  constructor <;> rintro rfl <;> exact absurd this (by simp)

/-! ### Plain integers -/

section

variable {base : Nat} {cs r : List Char} {i m : Int64} {z : Int}

theorem naturalWord_eq_some_iff (hb : base ≤ 16) :
    ((natural? base cs).bind fun n => word? n) = some i ↔
      ∃ n : Nat, Digits base cs n ∧ i.toInt = n := by
  simp only [Option.bind_eq_some_iff, natural?_eq_some_iff hb, word?_eq_some_iff]

theorem signed_minus_iff (hb : base ≤ 16) :
    Signed base ('-' :: r) z ↔ ∃ n : Nat, Digits base r n ∧ z = -n := by
  constructor
  · intro h
    cases h with
    | unsigned h => exact absurd rfl (h.ne_sign hb).1
    | minus h => exact ⟨_, h, rfl⟩
  · rintro ⟨n, h, rfl⟩
    exact .minus h

theorem signed_plus_iff (hb : base ≤ 16) :
    Signed base ('+' :: r) z ↔ ∃ n : Nat, Digits base r n ∧ z = n := by
  constructor
  · intro h
    cases h with
    | unsigned h => exact absurd rfl (h.ne_sign hb).2
    | plus h => exact ⟨_, h, rfl⟩
  · rintro ⟨n, h, rfl⟩
    exact .plus h

theorem signed_unsigned_iff (hm : ∀ s, r ≠ '-' :: s) (hp : ∀ s, r ≠ '+' :: s) :
    Signed base r z ↔ ∃ n : Nat, Digits base r n ∧ z = n := by
  constructor
  · intro h
    cases h with
    | unsigned h => exact ⟨_, h, rfl⟩
    | plus => exact absurd rfl (hp _)
    | minus => exact absurd rfl (hm _)
  · rintro ⟨n, h, rfl⟩
    exact .unsigned h

/-- A plain integer is read as the word that it is. -/
theorem plain?_eq_some_iff (hb : base ≤ 16) :
    plain? base cs = some i ↔ Signed base cs i.toInt := by
  unfold plain?
  split
  next r =>
    rw [signed_minus_iff hb]
    simp only [Option.bind_eq_some_iff, natural?_eq_some_iff hb, word?_eq_some_iff]
  next r => rw [signed_plus_iff hb, naturalWord_eq_some_iff hb]
  next hm hp =>
    rw [signed_unsigned_iff (fun s hs => hm s hs) (fun s hs => hp s hs),
      naturalWord_eq_some_iff hb]

/-! ### Magnitudes -/

/-- The mark of the hexadecimal base is no decimal digit. -/
theorem not_digits_marked {x : Char} (hx : x = 'x' ∨ x = 'X') {n : Nat} :
    ¬Digits 10 ('0' :: x :: r) n := by
  intro h
  obtain ⟨d, hd⟩ := h.isDigit_of_mem (List.mem_cons_of_mem _ List.mem_cons_self)
  have := hd.toNat_cases (by decide)
  rcases hx with rfl | rfl <;> exact absurd this (by decide)

/-- Behind the mark of the hexadecimal base stands a plain integer. -/
theorem operand_marked_iff {x : Char} (hx : x = 'x' ∨ x = 'X') :
    Operand ('0' :: x :: r) z ↔ Signed 16 r z := by
  refine ⟨fun h => ?_, .hexadecimal hx⟩
  cases h with
  | decimal h => exact absurd h (not_digits_marked hx)
  | hexadecimal _ h => exact h

/-- The part of a literal behind its sign is read as the word that it is. -/
theorem magnitude?_eq_some_iff : magnitude? cs = some i ↔ Operand cs i.toInt := by
  unfold magnitude?
  split
  · rw [plain?_eq_some_iff (by decide), operand_marked_iff (.inl rfl)]
  · rw [plain?_eq_some_iff (by decide), operand_marked_iff (.inr rfl)]
  next hx hX =>
    rw [naturalWord_eq_some_iff (by decide)]
    constructor
    · rintro ⟨n, h, hi⟩
      rw [hi]
      exact .decimal h
    · generalize hz : i.toInt = z
      intro h
      cases h with
      | decimal h => exact ⟨_, h, rfl⟩
      | hexadecimal hmark =>
        rcases hmark with rfl | rfl
        · exact absurd rfl (hx _)
        · exact absurd rfl (hX _)

theorem Operand.ne_sign {c : Char} (h : Operand (c :: r) z) : c ≠ '-' ∧ c ≠ '+' := by
  cases h with
  | decimal h => exact h.ne_sign (by decide)
  | hexadecimal => decide

theorem Magnitude.operand {n : Nat} (h : Magnitude cs n) : Operand cs n := by
  cases h with
  | decimal h => exact .decimal h
  | hexadecimal hx h => exact .hexadecimal hx (.unsigned h)

/-- Without a sign in it, what is read is a magnitude. -/
theorem Operand.magnitude (h : Operand cs z) (hi : ¬InnerSign cs) :
    ∃ n : Nat, Magnitude cs n ∧ z = n := by
  cases h with
  | decimal h => exact ⟨_, .decimal h, rfl⟩
  | hexadecimal hx h =>
    cases h with
    | unsigned h => exact ⟨_, .hexadecimal hx h, rfl⟩
    | plus h => exact absurd (.mk hx (.inl rfl) h) hi
    | minus h => exact absurd (.mk hx (.inr rfl) h) hi

/-! ### Literals -/

theorem accept_eq_ok_iff {x : Option Int64} : accept x = .ok i ↔ x = some i := by
  cases x with
  | none => exact iff_of_false nofun nofun
  | some j => rw [accept, Except.ok.injEq, Option.some.injEq]

theorem accept_eq_malformed {x : Option Int64} (h : ∀ i, x ≠ some i) :
    accept x = .error .malformed := by
  rw [Option.eq_none_iff_forall_ne_some.2 h, accept]

theorem Takes.literal_eq (h : Takes cs i) : literal cs = .ok i := by
  obtain ⟨r, hcs, hr⟩ := h
  have hread := accept_eq_ok_iff.2 (magnitude?_eq_some_iff.2 hr)
  rcases hcs with rfl | rfl
  · unfold literal
    split
    · exact absurd rfl hr.ne_sign.1
    · exact absurd rfl hr.ne_sign.2
    · exact hread
  · exact hread

theorem Negates.literal_eq (h : Negates cs m) : literal cs = checked .negate (-m.toInt) := by
  obtain ⟨r, rfl, hr⟩ := h
  rw [literal, accept_eq_ok_iff.2 (magnitude?_eq_some_iff.2 hr)]
  rfl

theorem literal_eq_malformed (ht : ∀ i, ¬Takes cs i) (hn : ∀ m, ¬Negates cs m) :
    literal cs = .error .malformed := by
  unfold literal
  split
  next r =>
    rw [accept_eq_malformed fun m hm => hn m ⟨r, rfl, magnitude?_eq_some_iff.1 hm⟩]
    rfl
  next r =>
    exact accept_eq_malformed fun i hi => ht i ⟨r, .inr rfl, magnitude?_eq_some_iff.1 hi⟩
  next =>
    exact accept_eq_malformed fun i hi => ht i ⟨cs, .inl rfl, magnitude?_eq_some_iff.1 hi⟩

/-- Characters are read as a word, or a word is negated, or they are no integer. -/
theorem literal_cases (cs : List Char) : (∃ i, Takes cs i ∧ literal cs = .ok i) ∨
    (∃ m, Negates cs m ∧ literal cs = checked .negate (-m.toInt)) ∨
      ((∀ i, ¬Takes cs i) ∧ (∀ m, ¬Negates cs m) ∧ literal cs = .error .malformed) := by
  by_cases ht : ∃ i, Takes cs i
  · obtain ⟨i, ht⟩ := ht
    exact .inl ⟨i, ht, ht.literal_eq⟩
  · by_cases hn : ∃ m, Negates cs m
    · obtain ⟨m, hn⟩ := hn
      exact .inr (.inl ⟨m, hn, hn.literal_eq⟩)
    · rw [not_exists] at ht hn
      exact .inr (.inr ⟨ht, hn, literal_eq_malformed ht hn⟩)

/-- **A literal is the word that is read**, or with a minus sign its negation. -/
theorem literal_eq_ok_iff : literal cs = .ok i ↔
    Takes cs i ∨ ∃ m, Negates cs m ∧ i.toInt = -m.toInt := by
  constructor
  · intro h
    rcases literal_cases cs with ⟨j, ht, hj⟩ | ⟨m, hn, hm⟩ | ⟨-, -, hnone⟩
    · obtain rfl := Except.ok.inj (hj.symm.trans h)
      exact .inl ht
    · exact .inr ⟨m, hn, checked_eq_ok_iff.1 (hm.symm.trans h)⟩
    · cases hnone.symm.trans h
  · rintro (ht | ⟨m, hn, hi⟩)
    · exact ht.literal_eq
    · rw [hn.literal_eq]
      exact checked_eq_ok_iff.2 hi

/-- A literal overflows where the word that is negated has no negation. -/
theorem literal_eq_overflow_iff {o : Overflow} : literal cs = .error (.overflow o) ↔
    ∃ m, Negates cs m ∧ o.operation = .negate ∧ o.exact = -m.toInt := by
  constructor
  · intro h
    rcases literal_cases cs with ⟨j, -, hj⟩ | ⟨m, hn, hm⟩ | ⟨-, -, hnone⟩
    · cases hj.symm.trans h
    · obtain ⟨_, ho, hexact⟩ := checked_eq_error_iff.1 (hm.symm.trans h)
      obtain rfl := Refusal.overflow.inj ho
      exact ⟨m, hn, hexact⟩
    · cases hnone.symm.trans h
  · rintro ⟨m, hn, ho⟩
    rw [hn.literal_eq]
    exact checked_eq_error_iff.2 ⟨o, rfl, ho⟩

end

/-! ### Numerals -/

theorem ne_minValue_iff {i : Int64} : i ≠ Int64.minValue ↔ -0x8000000000000000 < i.toInt := by
  have hle := Int64.le_toInt i
  have hleast : Int64.minValue.toInt = -0x8000000000000000 := rfl
  rw [← Int64.toInt_inj.ne]
  omega

/-- With one sign at most, the literals are the numerals of the words but the least one. -/
theorem literal_eq_ok_iff_numeral {cs : List Char} (h : ¬HasInnerSign cs) {i : Int64} :
    literal cs = .ok i ↔ Numeral cs i.toInt ∧ i ≠ Int64.minValue := by
  have hlow := Int64.le_toInt i
  rw [literal_eq_ok_iff, ne_minValue_iff]
  constructor
  · rintro (⟨r, hcs, hr⟩ | ⟨m, ⟨r, rfl, hr⟩, hi⟩)
    · rcases hcs with rfl | rfl
      · obtain ⟨n, hn, hi⟩ := hr.magnitude fun hs => h ⟨[], _, by decide, hs, rfl⟩
        rw [hi]
        exact ⟨.unsigned hn, by omega⟩
      · obtain ⟨n, hn, hi⟩ := hr.magnitude fun hs => h ⟨['+'], _, by decide, hs, rfl⟩
        rw [hi]
        exact ⟨.plus hn, by omega⟩
    · obtain ⟨n, hn, hm⟩ := hr.magnitude fun hs => h ⟨['-'], _, by decide, hs, rfl⟩
      have hhigh := Int64.toInt_lt m
      rw [hi, hm]
      exact ⟨.minus hn, by omega⟩
  · rintro ⟨hcs, hmin⟩
    generalize hz : i.toInt = z at hcs hmin
    cases hcs with
    | unsigned hn => exact .inl ⟨_, .inl rfl, hz ▸ hn.operand⟩
    | plus hn => exact .inl ⟨_, .inr rfl, hz ▸ hn.operand⟩
    | @minus r n hn =>
      have hm : (Int64.ofInt n).toInt = n := Int64.toInt_ofInt_of_le (by omega) (by omega)
      exact .inr ⟨Int64.ofInt n, ⟨r, rfl, by rw [hm]; exact hn.operand⟩, by rw [hm]⟩

/-- A literal that overflows has a sign behind the mark of the hexadecimal base. -/
theorem hasInnerSign_of_overflow {cs : List Char} {o : Overflow}
    (h : literal cs = .error (.overflow o)) : HasInnerSign cs := by
  by_contra hno
  obtain ⟨m, ⟨r, rfl, hr⟩, -, ho⟩ := literal_eq_overflow_iff.1 h
  obtain ⟨n, -, hm⟩ := hr.magnitude fun hs => hno ⟨['-'], _, by decide, hs, rfl⟩
  have hhigh := Int64.toInt_lt m
  have hout := o.overflows
  rw [Overflows] at hout
  omega

/-! ### White space -/

theorem IsDigit.isSpace_eq_false {base : Nat} {c : Char} {d : Nat} (hb : base ≤ 16)
    (h : IsDigit base c d) : Text.isSpace c = false := by
  have hc := h.toNat_cases hb
  simp only [Text.isSpace, Bool.or_eq_false_iff, Bool.and_eq_false_iff, beq_eq_false_iff_ne,
    decide_eq_false_iff_not]
  omega

theorem Digits.isSpace_eq_false {base : Nat} {cs : List Char} {n : Nat} (hb : base ≤ 16)
    (h : Digits base cs n) : ∀ c ∈ cs, Text.isSpace c = false := fun _ hc =>
  have ⟨_, hd⟩ := h.isDigit_of_mem hc
  hd.isSpace_eq_false hb

theorem Magnitude.isSpace_eq_false {cs : List Char} {n : Nat} (h : Magnitude cs n) :
    ∀ c ∈ cs, Text.isSpace c = false := by
  cases h with
  | decimal h => exact h.isSpace_eq_false (by decide)
  | hexadecimal hx h =>
    intro c hc
    rcases List.mem_cons.1 hc with rfl | hc
    · rfl
    · rcases List.mem_cons.1 hc with rfl | hc
      · rcases hx with rfl | rfl <;> rfl
      · exact h.isSpace_eq_false (by decide) c hc

/-- There is no white space in a numeral. -/
theorem Numeral.isSpace_eq_false {cs : List Char} {z : Int} (h : Numeral cs z) :
    ∀ c ∈ cs, Text.isSpace c = false := by
  have hsign : ∀ {s : Char} {r : List Char} {n : Nat}, Text.isSpace s = false → Magnitude r n →
      ∀ c ∈ s :: r, Text.isSpace c = false := fun hs hr c hc =>
    (List.mem_cons.1 hc).elim (· ▸ hs) (hr.isSpace_eq_false c)
  cases h with
  | unsigned h => exact h.isSpace_eq_false
  | plus h => exact hsign rfl h
  | minus h => exact hsign rfl h

end Integer

namespace Text

/-- White space around characters without any is what trimming takes off. -/
theorem trimChars_padded {front cs back : List Char} (hf : ∀ c ∈ front, isSpace c = true)
    (hb : ∀ c ∈ back, isSpace c = true) (hcs : ∀ c ∈ cs, isSpace c = false) :
    trimChars (front ++ cs ++ back) = cs := by
  induction front with
  | nil =>
    have hback : back.rdropWhile isSpace = [] := List.rdropWhile_eq_nil_iff.2 hb
    cases cs with
    | nil => rw [List.nil_append, List.nil_append, trimChars, List.dropWhile_eq_nil_iff.2 hb]; rfl
    | cons c cs =>
      have hkept : cs.rdropWhile isSpace = cs := List.rdropWhile_eq_self_iff.2 fun hl => by
        rw [hcs _ (List.mem_cons_of_mem c (List.getLast_mem hl))]
        exact Bool.false_ne_true
      rw [List.nil_append, List.cons_append, trimChars_cons_of_not (hcs c List.mem_cons_self),
        rdropWhile_append, if_pos hback, hkept]
  | cons c front ih =>
    rw [List.cons_append, List.cons_append, trimChars_cons (hf c List.mem_cons_self)]
    exact ih fun d hd => hf d (List.mem_cons_of_mem c hd)

/-- Trimming takes white space off. -/
theorem exists_padding (t : List Char) : ∃ front back, t = front ++ trimChars t ++ back ∧
    (∀ c ∈ front, isSpace c = true) ∧ ∀ c ∈ back, isSpace c = true := by
  let u := t.dropWhile isSpace
  refine ⟨t.takeWhile isSpace, u.rtakeWhile isSpace, ?_, fun c => List.mem_takeWhile_imp,
    fun c => List.mem_rtakeWhile_imp⟩
  change t = _ ++ u.rdropWhile isSpace ++ _
  rw [List.append_assoc, List.rdropWhile_append_rtakeWhile, List.takeWhile_append_dropWhile]

end Text

namespace Integer

/-- A text names what it names as a numeral when it is trimmed. -/
theorem names_iff {t : String} {z : Int} : Names t z ↔ Numeral (Text.trimChars t.toList) z := by
  constructor
  · rintro ⟨front, cs, back, ht, hf, hb, h⟩
    rwa [ht, Text.trimChars_padded hf hb h.isSpace_eq_false]
  · intro h
    obtain ⟨front, back, ht, hf, hb⟩ := Text.exists_padding t.toList
    exact ⟨front, _, back, ht, hf, hb, h⟩

theorem InnerSigned.of_trimChars {t : String} (h : HasInnerSign (Text.trimChars t.toList)) :
    InnerSigned t := by
  obtain ⟨front, back, ht, hf, hb⟩ := Text.exists_padding t.toList
  exact ⟨front, _, back, ht, hf, hb, h⟩

/-- At least two characters stand before the sign. -/
theorem InnerSigned.mem_drop {t : String} (h : InnerSigned t) :
    '+' ∈ t.toList.drop 2 ∨ '-' ∈ t.toList.drop 2 := by
  obtain ⟨front, _, back, ht, -, -, sign, _, -, @⟨x, s, ds, n, -, hs, -⟩, rfl⟩ := h
  have hlist : t.toList = (front ++ sign ++ ['0', x]) ++ s :: (ds ++ back) := by
    simpa only [List.append_assoc, List.cons_append, List.nil_append] using ht
  have hmem : s ∈ t.toList.drop 2 := by
    have hlength : 2 ≤ (front ++ sign ++ ['0', x]).length := by
      rw [List.length_append]
      exact Nat.le_add_left _ _
    rw [hlist, List.drop_append_of_le_length hlength]
    exact List.mem_append_right _ List.mem_cons_self
  rcases hs with rfl | rfl
  · exact .inl hmem
  · exact .inr hmem

end Integer

namespace Value
open Integer

/-! ### Reading a text as an integer -/

/-- **The integer syntax**: a text with one sign at most is read as the integer that it
names, and it is refused if it names no word or the least one. -/
theorem getInt_text_iff {t : String} (h : ¬ InnerSigned t) :
    (∀ i, (Value.text t).getInt = .ok i ↔ Names t i.toInt ∧ i ≠ Int64.minValue) ∧
      ((∀ i : Int64, Names t i.toInt → i = Int64.minValue) →
        (Value.text t).getInt = .error (.notInteger t)) := by
  have hsign : ¬HasInnerSign (Text.trimChars t.toList) := fun hd => h (.of_trimChars hd)
  have hread : ∀ i, literal (Text.trimChars t.toList) = .ok i ↔
      Names t i.toInt ∧ i ≠ Int64.minValue := fun i => by
    rw [literal_eq_ok_iff_numeral hsign, names_iff]
  rw [getInt_text]
  cases hl : literal (Text.trimChars t.toList) with
  | error r =>
    cases r with
    | malformed =>
      refine ⟨fun i => ⟨nofun, fun hi => ?_⟩, fun _ => rfl⟩
      cases hl.symm.trans ((hread i).2 hi)
    | overflow o => exact absurd (hasInnerSign_of_overflow hl) hsign
  | ok j =>
    refine ⟨fun i => ?_, fun hnone => absurd (hnone j ((hread j).1 hl).1) ((hread j).1 hl).2⟩
    rw [← hread, hl]
    exact ⟨fun h => congrArg _ (Except.ok.inj h), fun h => congrArg _ (Except.ok.inj h)⟩

theorem getInt_text_hexadecimal : ¬ InnerSigned "-0x1F" ∧ Names "-0x1F" (-31) := by
  have h : ¬ InnerSigned "-0x1F" := fun h => absurd h.mem_drop (by decide)
  exact ⟨h, (((getInt_text_iff h).1 (-31)).1 rfl).1⟩

/-- Behind the mark of the hexadecimal base, a minus sign is taken for one before it. -/
theorem getInt_innerSign {x : Char} (hx : x = 'x' ∨ x = 'X') {cs : List Char} {n : Nat}
    (h : Digits 16 cs n) (hn : n ≤ 0x8000000000000000) :
    (Value.text (String.ofList ('0' :: x :: '-' :: cs))).getInt = .ok (Int64.ofInt (-n)) := by
  have hspace : ∀ c ∈ '0' :: x :: '-' :: cs, Text.isSpace c = false := by
    have hmark : Text.isSpace x = false := by rcases hx with rfl | rfl <;> rfl
    simpa [hmark] using ⟨by decide, by decide, h.isSpace_eq_false (by decide)⟩
  have hword : (Int64.ofInt (-n)).toInt = -n := Int64.toInt_ofInt_of_le (by omega) (by omega)
  have htakes : Takes ('0' :: x :: '-' :: cs) (Int64.ofInt (-n)) :=
    ⟨_, .inl rfl, .hexadecimal hx (by rw [hword]; exact .minus h)⟩
  rw [getInt_text, String.toList_ofList, Text.trimChars_eq_self hspace, htakes.literal_eq]

/-- The text of the least integer is no integer, and a text that names nothing is one. -/
theorem least_unread_innerSign_read :
    Names "-9223372036854775808" Int64.minValue.toInt ∧
      (Value.text "-9223372036854775808").getInt =
        .error (.notInteger "-9223372036854775808") ∧
      (∀ z, ¬ Names "0x-5" z) ∧ (Value.text "0x-5").getInt = .ok (-5) := by
  refine ⟨names_iff.2 (.minus (n := 9223372036854775808) (.decimal ?_)), rfl, fun z hz => ?_, rfl⟩
  · exact (natural?_eq_some_iff (by decide) _ _).1 rfl
  · have hchars : Numeral ['0', 'x', '-', '5'] z := names_iff.1 hz
    cases hchars with
    | unsigned hn =>
      cases hn with
      | decimal h => exact not_digits_marked (.inl rfl) h
      | hexadecimal _ h => exact (h.ne_sign (by decide)).1 rfl

end Value
end CommandBridge
