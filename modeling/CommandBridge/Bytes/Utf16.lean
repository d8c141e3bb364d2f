/-
# UTF-16, little end first

A character up to U+FFFF is one unit; any other is a high surrogate and a low
one.  Reading puts U+FFFD for a surrogate without its partner and ignores an
odd byte at the end.
-/

import CommandBridge.Bytes.Utf8

namespace CommandBridge
namespace Utf16

/-- The units of a character. -/
def units (c : Char) : List Nat :=
  let n := c.toNat
  if n < 0x10000 then [n] else [0xD800 + (n - 0x10000) / 0x400, 0xDC00 + (n - 0x10000) % 0x400]

/-- The two bytes of a unit. -/
def unitBytes (u : Nat) : Bytes :=
  [UInt8.ofNat (u % 256), UInt8.ofNat (u / 256)]

/-- The units of bytes taken in pairs. -/
def ofBytes : Bytes → List Nat
  | low :: high :: r => (low.toNat + 256 * high.toNat) :: ofBytes r
  | _ => []

def isHigh (u : Nat) : Bool := 0xD800 ≤ u && u < 0xDC00

def isLow (u : Nat) : Bool := 0xDC00 ≤ u && u < 0xE000

/-- The characters of units. -/
def decode : List Nat → List Char
  | [] => []
  | [u] => [if isHigh u || isLow u then '\uFFFD' else Char.ofNat u]
  | u :: v :: r =>
    if isHigh u then
      if isLow v then Char.ofNat (0x10000 + (u - 0xD800) * 0x400 + (v - 0xDC00)) :: decode r
      else '\uFFFD' :: decode (v :: r)
    else if isLow u then '\uFFFD' :: decode (v :: r)
    else Char.ofNat u :: decode (v :: r)

end Utf16
end CommandBridge
