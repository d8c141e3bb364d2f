/-
# Reading texts, numbers and dates

Line ends inside texts of several lines count as line feeds.  Of dates and times
only the form is checked, and that they exist.  Numbers must not be larger than
any number of 64 bits that is finite.
-/

import CommandBridge.Number.Decimal
import CommandBridge.Number.Integer
import CommandBridge.Toml.Reader

namespace CommandBridge
namespace Toml
namespace Reader

/-! ### Space and comments -/

def isGap (c : Char) : Bool :=
  c == ' ' || c == '\t'

/-- Spaces and tabs. -/
def gap : Reader Unit := do
  let _ ← run isGap

/-- A line feed, with or without a carriage return before it.  Where there is none,
reading stops behind the first character. -/
def newline : Reader Unit := do
  match ← charOf fun _ => true with
  | '\n' => return ()
  | '\r' => char '\n'
  | _ => fail

/-- What may stand in comments and, apart from delimiters and backslashes, in
texts. -/
def isPlain (c : Char) : Bool :=
  c == '\t' || (0x20 ≤ c.toNat && c.toNat != 0x7F)

def comment : Reader Unit := do
  char '#'
  let _ ← run isPlain

/-- The end of a line or of the text. -/
def lineEnd : Reader Unit :=
  either newline atEnd

/-- The rest of a line behind what it holds. -/
def lineRest : Reader Unit :=
  expecting ["newline", "`#`"] do
    gap
    orElse () comment
    lineEnd

/-- Space that goes over so many lines at most. -/
def gapOfLines : Nat → Reader Unit
  | 0 => gap
  | n + 1 => do
    gap
    match ← next? with
    | some '#' => do
      comment
      newline
      gapOfLines n
    | some '\n' => do
      newline
      gapOfLines n
    | some '\r' => do
      newline
      gapOfLines n
    | _ => return ()

/-- Space that may go over several lines.  A comment in it has to end with its line,
also at the end of the text. -/
def wideGap : Reader Unit := do
  gapOfLines (← left)

/-! ### Texts -/

def isHexDigit (c : Char) : Bool :=
  (Integer.digit? 16 c).isSome

/-- The value of digits of a base. -/
def valueOf (base : Nat) (cs : List Char) : Nat :=
  (Integer.digitsFrom? base 0 cs).getD 0

/-- A code point of so many hexadecimal digits. -/
def codePoint (digits : Nat) : Reader Char :=
  committed (labelled ("unicode " ++ toString digits ++ "-digit hex code")
    (refine (exactly digits isHexDigit) fun ds =>
      let n := valueOf 16 ds
      if n.isValidChar then .ok (Char.ofNat n) else .error .outOfRange))

/-- Stops behind a character that makes no escape, or at it if it is not ASCII. -/
def badEscape (x : Char) : Reader Char :=
  committed (labelled "escape sequence"
    (expecting ["`b`", "`f`", "`n`", "`r`", "`t`", "`u`", "`U`", "`\\`", "`\"`"] fun c =>
      .error { place := if x.toNat < 128 then c.place else c.place - 1 }))

/-- A character behind a backslash. -/
def escape : Reader Char := do
  char '\\'
  match ← charOf fun _ => true with
  | 'b' => return '\x08'
  | 't' => return '\t'
  | 'n' => return '\n'
  | 'f' => return '\x0c'
  | 'r' => return '\r'
  | '"' => return '"'
  | '\\' => return '\\'
  | 'u' => codePoint 4
  | 'U' => codePoint 8
  | x => badEscape x

/-- A character between quotes that stands for itself. -/
def isBasic (c : Char) : Bool :=
  isPlain c && c != '"' && c != '\\'

/-- A character between apostrophes. -/
def isLiteral (c : Char) : Bool :=
  isPlain c && c != '\''

/-- A text between quotes. -/
def basic : Reader (List Char) := do
  char '"'
  let cs ← many (either (charOf isBasic) escape)
  labelled "basic string" (committed (char '"'))
  return cs

/-- A text between apostrophes. -/
def literal : Reader (List Char) :=
  labelled "literal string" do
    char '\''
    let cs ← run isLiteral
    committed (char '\'')
    return cs

/-- One or two delimiting characters before what passes a test; two are tried
first. -/
def delimiters (q : Char) (before : List Char → Bool) : Reader (List Char) := fun c =>
  if [q, q].isPrefixOf c.rest && before (c.rest.drop 2) then .ok ([q, q], c.skip 2)
  else if [q].isPrefixOf c.rest && before (c.rest.drop 1) then .ok ([q], c.skip 1)
  else .error c.stop

/-- The body of a text of several lines made of pieces, and its closing delimiter.
One or two delimiting characters belong to the text when pieces follow, or the
closing delimiter. -/
def wideBody (q : Char) (piece : Reader (List Char)) : Reader (List Char) := do
  let other (cs : List Char) : Bool := cs.head?.any (· != q)
  let first ← many piece
  let groups ← many do
    let ds ← delimiters q other
    let one ← piece
    return ds ++ one ++ (← many piece).flatten
  return first.flatten ++ groups.flatten

/-- A text of several lines.  A line end right at the start does not belong to it. -/
def wide (q : Char) (body : Reader (List Char)) : Reader (List Char) := do
  chars [q, q, q]
  let _ ← optional newline
  committed do
    let cs ← body
    let last ← orElse [] (delimiters q ([q, q, q].isPrefixOf ·))
    chars [q, q, q]
    return cs ++ last

/-- A line end in a text. -/
def lineFeed : Reader (List Char) := do
  newline
  return ['\n']

/-- A backslash at the end of a line, with all space behind it. -/
def joint : Reader (List Char) := do
  char '\\'
  gap
  newline
  let _ ← many (either (do let _ ← charOf isGap) newline)
  return []

/-- A text of several lines between quotes.  Quotes before a character that cannot
stand in the text are passed over, and reading stops at that character. -/
def wideBasic : Reader (List Char) :=
  let one (p : Reader Char) : Reader (List Char) := do return [← p]
  labelled "multiline basic string" (wide '"' do
    let cs ← wideBody '"'
      (either (one (charOf isBasic)) (either joint (either (one escape) lineFeed)))
    let _ ← optional (delimiters '"' fun cs => cs.head?.any (· != '"'))
    return cs)

/-- A text of several lines between apostrophes. -/
def wideLiteral : Reader (List Char) :=
  let one (p : Reader Char) : Reader (List Char) := do return [← p]
  labelled "multiline literal string"
    (wide '\'' (wideBody '\'' (either (one (charOf isLiteral)) lineFeed)))

/-- A text in one of its four notations. -/
def text : Reader Toml := do
  return .string (String.ofList
    (← either wideBasic (either basic (either wideLiteral literal))))

/-! ### Numbers -/

/-- One digit behind an underscore. -/
def digitBehind (p : Char → Bool) : Reader Char := do
  char '_'
  committed (expecting ["digit"] (charOf p))

/-- Digits with single underscores between them, which are left out. -/
def moreDigits (p : Char → Bool) : Reader (List Char) :=
  many (either (charOf p) (digitBehind p))

/-- One or more digits with single underscores between them. -/
def digits (p : Char → Bool) : Reader (List Char) := do
  let first ← charOf p
  return first :: (← moreDigits p)

/-- An optional sign. -/
def sign : Reader (List Char) :=
  orElse [] (do return [← charOf fun c => c == '+' || c == '-'])

/-- The digits of a decimal integer, without leading zeros. -/
def decimal : Reader (List Char) :=
  labelled "integer" do
    let s ← sign
    let long : Reader (List Char) := do
      let first ← charOf fun c => c.isDigit && c != '0'
      return first :: (← moreDigits Char.isDigit)
    return s ++ (← either long (do return [← charOf Char.isDigit]))

/-- The integer that signed digits stand for. -/
def signedValue (cs : List Char) : Int :=
  match cs with
  | '-' :: r => -(valueOf 10 r : Int)
  | '+' :: r => valueOf 10 r
  | r => valueOf 10 r

/-- Keeps an integer within 64 bits. -/
def inRange (i : Int) : Except Fault Toml :=
  if (Integer.word? i).isSome then .ok (.integer i)
  else .error (if i < 0 then .tooSmall else .tooLarge)

/-- An integer behind the mark of its base. -/
def based (mark : Char) (base : Nat) (label : String) : Reader Toml :=
  let digit (c : Char) : Bool := (Integer.digit? base c).isSome
  refine (labelled label do
    chars ['0', mark]
    committed (digits digit)) fun ds => inRange (valueOf base ds)

/-- An integer in decimal or behind the mark of another base. -/
def integer : Reader Toml := do
  if (← ahead ['0', 'x']) then committed (based 'x' 16 "hexadecimal integer")
  else if (← ahead ['0', 'o']) then committed (based 'o' 8 "octal integer")
  else if (← ahead ['0', 'b']) then committed (based 'b' 2 "binary integer")
  else settle decimal fun ds => (inRange (signedValue ds)).mapError some

def exponent : Reader (List Char) := do
  let mark ← charOf fun c => c == 'e' || c == 'E'
  let s ← sign
  return mark :: s ++ (← committed (digits Char.isDigit))

def fraction : Reader (List Char) := do
  char '.'
  return '.' :: (← committed (expecting ["digit"] (digits Char.isDigit)))

/-- The name of a number that is not finite. -/
def special : Reader Binary64 := do
  let s ← sign
  let named (name : List Char) (x : Binary64) : Reader Binary64 := do
    chars name
    return if s == ['-'] then x.opposite else x
  either (named ['i', 'n', 'f'] (Binary64.infinity false)) (named ['n', 'a', 'n'] Binary64.nan)

/-- The digits of a number with a fraction or an exponent. -/
def plainNumber : Reader (List Char) := do
  let whole ← decimal
  let rest ← either exponent do
    return (← fraction) ++ (← orElse [] exponent)
  return whole ++ rest

/-- The number nearest to what digits say; there is none if it is too large. -/
def finiteNumber (ds : List Char) : Except (Option Fault) Binary64 :=
  match Binary64.ofText? ds with
  | some x => if x == Binary64.infinity false then .error none else .ok x
  | none => .error none

/-- A number with a fraction or an exponent, or the name of one. -/
def number : Reader Toml :=
  labelled "floating-point number" do
    return .number (← either (settle plainNumber finiteNumber) special)

/-! ### Dates and times -/

/-- A number of so many digits within bounds. -/
def field (count low high : Nat) : Reader Nat :=
  refine (exactly count Char.isDigit) fun ds =>
    let n := valueOf 10 ds
    if low ≤ n ∧ n ≤ high then .ok n else .error .outOfRange

/-- The number of days in a month. -/
def daysIn (year month : Nat) : Nat :=
  if month = 2 then (if year % 4 = 0 ∧ (year % 100 ≠ 0 ∨ year % 400 = 0) then 29 else 28)
  else if month = 4 ∨ month = 6 ∨ month = 9 ∨ month = 11 then 30
  else 31

/-- A day of the calendar. -/
def day : Reader Unit := do
  let year ← field 4 0 9999
  char '-'
  let month ← committed (field 2 1 12)
  committed (char '-')
  let _ ← committed (field 2 1 (daysIn year month))

/-- A time of day; a minute may have a leap second. -/
def time : Reader Unit := do
  let _ ← field 2 0 23
  char ':'
  committed do
    let _ ← field 2 0 59
    char ':'
    let _ ← field 2 0 60
  orElse () do
    char '.'
    let _ ← run1 Char.isDigit

/-- The distance of local time from universal time. -/
def zone : Reader Unit :=
  labelled "time offset" (either
    (do let _ ← charOf fun c => c == 'Z' || c == 'z')
    (do
      let _ ← charOf fun c => c == '+' || c == '-'
      committed do
        let _ ← field 2 0 23
        char ':'
        let _ ← field 2 0 59))

/-- A date, a time or both. -/
def date : Reader Toml := do
  either
    (labelled "date-time" do
      day
      orElse () do
        let _ ← charOf fun c => c == 'T' || c == 't' || c == ' '
        time
        orElse () zone)
    (labelled "time" time)
  return .date

end Reader
end Toml
end CommandBridge
