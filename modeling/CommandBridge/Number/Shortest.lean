/-
# Shortest decimals

The decimals that read back as a finite number `x ≠ 0` are those in an interval
around `x`: half a step up and half a step down, the step below a power of two
being half as wide.  The ends belong to it iff the mantissa is even.  For one,
two, … seventeen digits the two neighbours of `x` on that decimal grid are
tested (`onGrid?`); the first grid with a hit gives the shortest decimal, of two
hits the nearer is taken and a tie goes up.

A decimal is `digits · 10 ^ power` with natural `digits`.
-/

import CommandBridge.Number.Binary64

namespace CommandBridge

/-- The decimal `digits · 10 ^ power`. -/
structure Decimal where
  digits : Nat
  power : Int
deriving DecidableEq, Repr, Inhabited

namespace Decimal

/-- The power of ten with a natural exponent. -/
def tenPow (n : Nat) : Nat :=
  Nat.pow 10 n

/-- The decimal digits of a natural number. -/
def digitsOf (n : Nat) : List Char :=
  Nat.toDigits 10 n

/-- How many decimal digits a natural number has. -/
def digitCount (n : Nat) : Nat :=
  (digitsOf n).length

/-- Moves zeros at the end of the digits into the power; `fuel` bounds their
number. -/
def normalizeWith : Nat → Decimal → Decimal
  | 0, d => d
  | fuel + 1, d =>
    if d.digits ≠ 0 ∧ d.digits % 10 = 0 then normalizeWith fuel ⟨d.digits / 10, d.power + 1⟩ else d

/-- The same decimal without a zero at the end of its digits. -/
def normalize (d : Decimal) : Decimal :=
  normalizeWith (digitCount d.digits) d

end Decimal

namespace Binary64

/-- Everything below is counted in quarters of the smallest step, so that half
of half a step is a natural number. -/
def quarterOne : Nat := 4 * one

/-- The number and the widths of its rounding interval, in quarter steps. -/
structure Interval where
  centre : Nat
  down : Nat
  up : Nat
  closed : Bool
deriving Repr

/-- The decimals that read back as the magnitude of `x`. -/
def interval (x : Binary64) : Interval :=
  { centre := 4 * x.scaled
    up := 2 <<< x.scale
    down := if x.mantissa = leadingBit ∧ 1 < x.exponentField then 1 <<< x.scale else 2 <<< x.scale
    closed := x.mantissa % 2 == 0 }

/-- Whether `c · 10 ^ power` lies in the interval. -/
def Interval.contains (v : Interval) (c : Nat) (power : Int) : Bool :=
  let a := Decimal.tenPow (-power).toNat
  let b := c * Decimal.tenPow power.toNat * quarterOne
  if v.closed then (v.centre - v.down) * a ≤ b && b ≤ (v.centre + v.up) * a
  else (v.centre - v.down) * a < b && b < (v.centre + v.up) * a

/-- The better of the two neighbours on the grid of the multiples of
`10 ^ power`, among those in the interval. -/
def Interval.onGrid? (v : Interval) (power : Int) : Option Nat :=
  let num := v.centre * Decimal.tenPow (-power).toNat
  let den := quarterOne * Decimal.tenPow power.toNat
  let low := num / den
  let r := num % den
  if r = 0 then some low
  else
    match v.contains low power, v.contains (low + 1) power with
    | true, true => some (if 2 * r < den then low else low + 1)
    | true, false => some low
    | false, true => some (low + 1)
    | false, false => none

/-- The first grid with a hit, from `n` digits on; `magnitude` is the number of
digits before the decimal point. -/
def Interval.shortestFrom (v : Interval) (magnitude : Int) : Nat → Nat → Decimal
  | 0, n => ⟨v.centre * Decimal.tenPow (n - magnitude).toNat / quarterOne, magnitude - n⟩
  | fuel + 1, n =>
    match v.onGrid? (magnitude - n) with
    | some c => ⟨c, magnitude - n⟩
    | none => v.shortestFrom magnitude fuel (n + 1)

/-- The power of ten above the magnitude, as the number of digits before the
point; a negative one counts zeros after it. -/
def decimalMagnitude (x : Binary64) : Int :=
  (Decimal.digitCount (x.scaled * Decimal.tenPow 400 / one) : Int) - 400

/-- The shortest decimal that reads back as the magnitude of a finite number. -/
def shortest (x : Binary64) : Decimal :=
  if x.scaled = 0 then ⟨0, 0⟩
  else (x.interval.shortestFrom x.decimalMagnitude 17 1).normalize

end Binary64
end CommandBridge
