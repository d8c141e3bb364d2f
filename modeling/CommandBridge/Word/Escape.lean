/-
# Backslash sequences

A backslash and what follows it stand for one character.  `escape` takes the
characters after the backslash and gives that character with the characters
left over:

| after the backslash | character |
| --- | --- |
| nothing | the backslash itself |
| `a b f n r t v` | the control character of that name |
| line feed, spaces, tabs | one space |
| `x`, one or two hexadecimal digits | the code point |
| `u`, one to four hexadecimal digits | the code point, U+FFFD for a surrogate |
| one to three octal digits | the code point modulo 256 |
| anything else | that character |
-/

import CommandBridge.Number.Integer

namespace CommandBridge
namespace Word

/-- Whether a character is a digit of the base. -/
def isDigitOf (base : Nat) (c : Char) : Bool :=
  (Integer.digit? base c).isSome

/-- The digits of the base at the head of the characters, at most `limit`. -/
def leadingDigits (base limit : Nat) (cs : List Char) : List Char :=
  (cs.take limit).takeWhile (isDigitOf base)

/-- The value of digits; zero where a character is none. -/
def digitsValue (base : Nat) (ds : List Char) : Nat :=
  ((Integer.digitsFrom? base 0 ds).getD 0)

/-- The character of a code point, U+FFFD where it is a surrogate. -/
def charOfCode (n : Nat) : Char :=
  if n.isValidChar then Char.ofNat n else '\uFFFD'

/-- `c` followed by up to `limit` hexadecimal digits; `c` itself if there are
none. -/
def escapeHex (c : Char) (limit : Nat) (r : List Char) : Char × List Char :=
  let ds := leadingDigits 16 limit r
  if ds.isEmpty then (c, r) else (charOfCode (digitsValue 16 ds), r.drop ds.length)

/-- The character that a backslash and the given characters stand for, and the
characters after the sequence. -/
def escape : List Char → Char × List Char
  | [] => ('\\', [])
  | 'a' :: r => ('\x07', r)
  | 'b' :: r => ('\x08', r)
  | 'f' :: r => ('\x0c', r)
  | 'n' :: r => ('\n', r)
  | 'r' :: r => ('\r', r)
  | 't' :: r => ('\t', r)
  | 'v' :: r => ('\x0b', r)
  | '\n' :: r => (' ', r.dropWhile fun c => c == ' ' || c == '\t')
  | 'x' :: r => escapeHex 'x' 2 r
  | 'u' :: r => escapeHex 'u' 4 r
  | c :: r =>
    let ds := leadingDigits 8 3 (c :: r)
    if ds.isEmpty then (c, r)
    else (Char.ofNat (digitsValue 8 ds % 256), (c :: r).drop ds.length)

/-- Hexadecimal digits are taken from the head. -/
theorem length_escapeHex_le (c : Char) (limit : Nat) (r : List Char) :
    (escapeHex c limit r).2.length ≤ r.length := by
  unfold escapeHex
  dsimp only
  split
  · exact Nat.le_refl _
  · exact (List.drop_suffix _ r).length_le

/-- A sequence never gives back more than it was given. -/
theorem length_escape_le (cs : List Char) : (escape cs).2.length ≤ cs.length := by
  unfold escape
  split
  case h_1 => exact Nat.le_refl _
  case h_9 r => exact Nat.le_succ_of_le (List.dropWhile_suffix _).length_le
  case h_10 r => exact Nat.le_succ_of_le (length_escapeHex_le 'x' 2 r)
  case h_11 r => exact Nat.le_succ_of_le (length_escapeHex_le 'u' 4 r)
  case h_12 c r _ _ _ _ _ _ _ _ _ _ =>
    dsimp only
    split
    · exact Nat.le_succ _
    · exact (List.drop_suffix _ (c :: r)).length_le
  all_goals exact Nat.le_succ _

end Word
end CommandBridge
