/-
# Integer text

A plain integer is an optional sign and one or more digits of a base
(`plain?`).  An integer literal is an optional sign, then either decimal digits
or `0x` and a plain hexadecimal integer, which may carry a sign of its own
(`literal`).  Both must fit into a signed word of 64 bits; the sign of a
literal is applied to the magnitude afterwards, so the least word cannot be
written as a literal in decimal.

Arithmetic on words is checked: a result that is no word is an `Overflow`.  It is
not the same as a text that is no integer, which can be refused.
-/

namespace CommandBridge
namespace Integer

/-- The word that an integer fits into, if it does. -/
def word? (i : Int) : Option Int64 :=
  if -0x8000000000000000 ≤ i ∧ i < 0x8000000000000000 then some (Int64.ofInt i) else none

/-- The integer is no word. -/
def Overflows (i : Int) : Prop :=
  i < -0x8000000000000000 ∨ 0x8000000000000000 ≤ i

instance (i : Int) : Decidable (Overflows i) :=
  inferInstanceAs (Decidable (_ ∨ _))

/-- The operations that are checked. -/
inductive Operation where
  | negate
  | subtract
deriving DecidableEq, Repr

/-- A result of arithmetic on words that is no word. -/
structure Overflow where
  operation : Operation
  exact : Int
  overflows : Overflows exact
deriving DecidableEq

/-- The wording of an overflow. -/
def Overflow.message (o : Overflow) : String :=
  match o.operation with
  | .negate => "attempt to negate with overflow"
  | .subtract => "attempt to subtract with overflow"

/-- Why there is no word. -/
inductive Refusal where
  /-- The characters are no integer. -/
  | malformed
  | overflow (cause : Overflow)
deriving DecidableEq

/-- The result of an operation, if it is a word. -/
def checked (operation : Operation) (exact : Int) : Except Refusal Int64 :=
  if h : Overflows exact then .error (.overflow ⟨operation, exact, h⟩)
  else .ok (Int64.ofInt exact)

theorem checked_eq_ok_iff {operation : Operation} {exact : Int} {i : Int64} :
    checked operation exact = .ok i ↔ i.toInt = exact := by
  have hlow := Int64.le_toInt i
  have hhigh := Int64.toInt_lt i
  rw [checked]
  split
  · rename_i h
    rw [Overflows] at h
    refine iff_of_false nofun fun hi => ?_
    omega
  · rename_i h
    rw [Overflows] at h
    rw [Except.ok.injEq]
    constructor
    · rintro rfl
      exact Int64.toInt_ofInt_of_le (by omega) (by omega)
    · rintro rfl
      exact Int64.ofInt_toInt i

theorem checked_eq_error_iff {operation : Operation} {exact : Int} {r : Refusal} :
    checked operation exact = .error r ↔
      ∃ o, r = .overflow o ∧ o.operation = operation ∧ o.exact = exact := by
  rw [checked]
  split
  · rename_i h
    rw [Except.error.injEq]
    constructor
    · rintro rfl
      exact ⟨_, rfl, rfl, rfl⟩
    · rintro ⟨o, rfl, rfl, rfl⟩
      rfl
  · rename_i h
    refine iff_of_false nofun ?_
    rintro ⟨o, -, -, rfl⟩
    exact h o.overflows

/-- The value of a digit up to base sixteen, letters in either case. -/
def digit? (base : Nat) (c : Char) : Option Nat :=
  let n := c.toNat
  let v := if 48 ≤ n ∧ n ≤ 57 then n - 48
    else if 97 ≤ n ∧ n ≤ 102 then n - 87
    else if 65 ≤ n ∧ n ≤ 70 then n - 55
    else base
  if v < base then some v else none

/-- The value of digits read from the left, after the digits with value `acc`. -/
def digitsFrom? (base : Nat) (acc : Nat) : List Char → Option Nat
  | [] => some acc
  | c :: r => (digit? base c).bind fun d => digitsFrom? base (base * acc + d) r

/-- One or more digits. -/
def natural? (base : Nat) : List Char → Option Nat
  | [] => none
  | c :: r => digitsFrom? base 0 (c :: r)

/-- An optional sign and one or more digits of `base`, within 64 bits. -/
def plain? (base : Nat) (cs : List Char) : Option Int64 :=
  match cs with
  | '-' :: r => (natural? base r).bind fun n => word? (-(n : Int))
  | '+' :: r => (natural? base r).bind fun n => word? n
  | r => (natural? base r).bind fun n => word? n

/-- The part of a literal after its sign. -/
def magnitude? : List Char → Option Int64
  | '0' :: 'x' :: r => plain? 16 r
  | '0' :: 'X' :: r => plain? 16 r
  | r => (natural? 10 r).bind fun n => word? n

/-- The word itself, or the refusal of characters that give none. -/
def accept : Option Int64 → Except Refusal Int64
  | some i => .ok i
  | none => .error .malformed

/-- An integer literal. -/
def literal (cs : List Char) : Except Refusal Int64 :=
  match cs with
  | '-' :: r => (accept (magnitude? r)).bind fun m => checked .negate (-m.toInt)
  | '+' :: r => accept (magnitude? r)
  | r => accept (magnitude? r)

end Integer
end CommandBridge
