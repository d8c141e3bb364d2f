/-
# Decimal text of numbers

A finite number is written positionally with the fewest digits that read back,
always with a decimal point: `1.0`, `0.1`, `-0.0`, `100000000000000000000.0`.
The two users of this text differ in the names of the other numbers only, which
is what `NumberNames` records.

Reading takes an optional sign, then either a name (`inf`, `infinity`, `nan` in
any case) or decimal digits with at most one point among them, at least one
digit, and an optional exponent.  The result is the number nearest to what is
written.
-/

import CommandBridge.Number.Shortest

namespace CommandBridge

/-- The texts of the numbers that are not finite. -/
structure NumberNames where
  nan : String
  negativeNaN : String
  infinity : String
  negativeInfinity : String
deriving Repr

namespace Decimal

/-- Positional notation with at least one digit on either side of the point. -/
def positional (d : Decimal) : List Char :=
  let ds := digitsOf d.digits
  if 0 ≤ d.power then ds ++ List.replicate d.power.toNat '0' ++ ['.', '0']
  else
    let places := (-d.power).toNat
    if places < ds.length then
      ds.take (ds.length - places) ++ '.' :: ds.drop (ds.length - places)
    else '0' :: '.' :: List.replicate (places - ds.length) '0' ++ ds

end Decimal

namespace Binary64

/-- The text of a number. -/
def text (names : NumberNames) (x : Binary64) : String :=
  if x.isNaN then (if x.negative then names.negativeNaN else names.nan)
  else if x.isInfinite then (if x.negative then names.negativeInfinity else names.infinity)
  else
    let digits := String.ofList x.shortest.positional
    if x.negative then "-" ++ digits else digits

/-- The value of a list of decimal digits. -/
def digitsValue (cs : List Char) : Nat :=
  cs.foldl (fun n c => 10 * n + (c.toNat - 48)) 0

/-- `± digits · 10 ^ power` rounded to the nearest number.  Powers far outside
the range are decided by the position of the first digit. -/
def ofDecimal (neg : Bool) (digits : Nat) (power : Int) : Binary64 :=
  let top : Int := Decimal.digitCount digits + power
  if digits = 0 then signed neg 0
  else if 400 < top then infinity neg
  else if top < -400 then signed neg 0
  else ofRatio neg (digits * Decimal.tenPow power.toNat) (Decimal.tenPow (-power).toNat)

/-- An exponent mark with its optional sign and digits, or nothing at all. -/
def readExponent? : List Char → Option Int
  | [] => some 0
  | c :: r =>
    if c == 'e' || c == 'E' then
      let (neg, ds) :=
        match r with
        | '-' :: ds => (true, ds)
        | '+' :: ds => (false, ds)
        | ds => (false, ds)
      if ds.isEmpty || !ds.all Char.isDigit then none
      else some (if neg then -(digitsValue ds : Int) else digitsValue ds)
    else none

/-- Digits with at most one point, then an exponent. -/
def readDigits? (neg : Bool) (cs : List Char) : Option Binary64 :=
  let whole := cs.takeWhile Char.isDigit
  let rest := cs.dropWhile Char.isDigit
  let (places, rest) :=
    match rest with
    | '.' :: r => (r.takeWhile Char.isDigit, r.dropWhile Char.isDigit)
    | r => ([], r)
  if whole.isEmpty && places.isEmpty then none
  else (readExponent? rest).map fun e =>
    ofDecimal neg (digitsValue (whole ++ places)) (e - places.length)

/-- A number without its sign: a name or digits. -/
def readUnsigned? (neg : Bool) (cs : List Char) : Option Binary64 :=
  let name := cs.map Char.toLower
  if name = ['i', 'n', 'f'] ∨ name = ['i', 'n', 'f', 'i', 'n', 'i', 't', 'y'] then some (infinity neg)
  else if name = ['n', 'a', 'n'] then some (if neg then nan.opposite else nan)
  else readDigits? neg cs

/-- Reads a number. -/
def ofText? (cs : List Char) : Option Binary64 :=
  match cs with
  | '-' :: r => readUnsigned? true r
  | '+' :: r => readUnsigned? false r
  | r => readUnsigned? false r

end Binary64
end CommandBridge
