/-
# Binary64 numbers as bit patterns

A number is its 64 bits: one sign bit, an exponent field of eleven bits and a
fraction of fifty-two.  The exponent field 2047 holds the infinities (fraction
zero) and the NaNs.  Every other magnitude is `mantissa · 2 ^ scale / 2 ^ 1074`
with natural `mantissa` and `scale`, so `scaled` gives it exactly as a natural
number of smallest steps, and all arithmetic here is on natural numbers.

`ofRatio` rounds a quotient to the nearest number, ties to the even mantissa;
`ofInt` is its case of integers.  `toInt?` is the integer a number equals.
-/

namespace CommandBridge

/-- A binary64 number, kept as its bits. -/
structure Binary64 where
  bits : UInt64
deriving DecidableEq, Repr, Inhabited

namespace Binary64

/-- The value of the highest bit of the pattern. -/
def signBit : Nat := 0x8000000000000000

/-- The value of the bit above the fraction. -/
def leadingBit : Nat := 0x10000000000000

/-- The sign bit. -/
def negative (x : Binary64) : Bool :=
  signBit ≤ x.bits.toNat

/-- The eleven bits below the sign. -/
def exponentField (x : Binary64) : Nat :=
  x.bits.toNat / leadingBit % 2048

/-- The lowest fifty-two bits. -/
def fraction (x : Binary64) : Nat :=
  x.bits.toNat % leadingBit

def isNaN (x : Binary64) : Bool :=
  x.exponentField == 2047 && x.fraction != 0

def isInfinite (x : Binary64) : Bool :=
  x.exponentField == 2047 && x.fraction == 0

def isFinite (x : Binary64) : Bool :=
  x.exponentField != 2047

/-- The mantissa with its leading bit, which is left out of the fraction of
every number whose exponent field is positive. -/
def mantissa (x : Binary64) : Nat :=
  if x.exponentField = 0 then x.fraction else leadingBit + x.fraction

/-- The power of two on the mantissa, counted from the smallest one. -/
def scale (x : Binary64) : Nat :=
  x.exponentField - 1

/-- The magnitude in steps of `2 ^ -1074`; meant for finite numbers. -/
def scaled (x : Binary64) : Nat :=
  x.mantissa <<< x.scale

/-- The number of smallest steps in one. -/
def one : Nat := 1 <<< 1074

/-- Positive infinity, the upper end of the magnitudes. -/
def infinityBits : Nat := 2047 * leadingBit

/-- The quotient rounded to the nearest natural number, a tie to the even one. -/
def roundDiv (num den : Nat) : Nat :=
  let q := num / den
  let r := num % den
  if 2 * r < den then q
  else if den < 2 * r then q + 1
  else q + q % 2

/-- The bits of the magnitude nearest to `num / den`, ties to the even
mantissa.  The exponent is the least one that leaves at most fifty-three bits;
a mantissa rounded up to the next power of two carries into the exponent by
itself, and what is too large becomes infinity. -/
def magnitudeBits (num den : Nat) : Nat :=
  let e := (num * one / den).log2 - 52
  min (e * leadingBit + roundDiv (num * one) (den <<< e)) infinityBits

/-- Puts a sign on the bits of a magnitude. -/
def signed (neg : Bool) (magnitude : Nat) : Binary64 :=
  ⟨UInt64.ofNat (if neg then signBit + magnitude else magnitude)⟩

/-- The number nearest to `± num / den`. -/
def ofRatio (neg : Bool) (num den : Nat) : Binary64 :=
  signed neg (magnitudeBits num den)

/-- The number nearest to an integer. -/
def ofInt (i : Int) : Binary64 :=
  ofRatio (i < 0) i.natAbs 1

def infinity (neg : Bool) : Binary64 :=
  signed neg infinityBits

/-- The NaN that arithmetic produces: positive and quiet. -/
def nan : Binary64 := ⟨0x7ff8000000000000⟩

/-- The same number with the other sign. -/
def opposite (x : Binary64) : Binary64 :=
  ⟨x.bits ^^^ 0x8000000000000000⟩

/-- The integer part, toward zero; zero for infinities and NaNs. -/
def truncate (x : Binary64) : Int :=
  if x.isFinite then
    let n : Int := ↑(x.scaled / one)
    if x.negative then -n else n
  else 0

/-- The integer that the number equals, if there is one.  Both zeros equal the
integer zero. -/
def toInt? (x : Binary64) : Option Int :=
  if x.isFinite && x.scaled % one == 0 then some x.truncate else none

/-- Equality of values: a NaN equals nothing and the two zeros are equal. -/
def sameValue (x y : Binary64) : Bool :=
  !x.isNaN && !y.isNaN && (x == y || (x.isFinite && y.isFinite && x.scaled == 0 && y.scaled == 0))

/-- The nearest integer of 32 bits toward zero; NaN gives zero and whatever is
out of range the end it lies beyond. -/
def toInt32 (x : Binary64) : Int :=
  if x.isNaN then 0
  else if x.isInfinite then (if x.negative then -0x80000000 else 0x7fffffff)
  else max (-0x80000000) (min 0x7fffffff x.truncate)

end Binary64
end CommandBridge
