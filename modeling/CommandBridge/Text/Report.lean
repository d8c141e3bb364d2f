/-
# Reports on a place in a text

A report names the line and column where a stretch of a text starts, shows that
line with marks under the stretch, and says what is wrong there:

```
TOML parse error at line 2, column 5
  |
2 | a = [1
  |     ^^
…
```

Lines and columns are counted from one.  The marks end with the line, and there
is at least one.  Three rules decide the column.

* Characters are counted, the one at the start of the stretch included.
* If that character is not ASCII, bytes are counted in place of characters.
* A stretch at the end of the text stands behind the last character, in the line
  of that character even if it is a line feed.
-/

namespace CommandBridge
namespace Text

/-- A stretch of a text, counted in characters from its start. -/
structure Span where
  start : Nat
  stop : Nat
deriving DecidableEq, Inhabited, Repr

/-- The number of bytes that characters take. -/
def byteCount (cs : List Char) : Nat :=
  cs.foldl (fun n c => n + c.utf8Size) 0

/-- The characters behind the last line feed. -/
def lastLine (cs : List Char) : List Char :=
  (cs.reverse.takeWhile (· != '\n')).reverse

/-- The line with a number, counted from zero. -/
def nthLine : Nat → List Char → List Char
  | 0, cs => cs.takeWhile (· != '\n')
  | n + 1, cs => nthLine n ((cs.dropWhile (· != '\n')).drop 1)

/-- The line and the column of a place, counted from zero. -/
def lineAndColumn (text : List Char) (place : Nat) : Nat × Nat :=
  match text.drop place with
  | c :: _ =>
    let before := text.take place
    let line := lastLine before
    (before.count '\n', if c.toNat < 128 then line.length else byteCount line)
  | [] =>
    let before := text.dropLast
    (before.count '\n', if text.isEmpty then 0 else (lastLine before).length + 1)

/-- A text of one character, so many times. -/
def repeated (c : Char) (n : Nat) : String :=
  String.ofList (List.replicate n c)

/-- A report under a title. -/
def report (title : String) (text : List Char) (span : Span) (message : String) : String :=
  let (line, column) := lineAndColumn text span.start
  let number := toString (line + 1)
  let content := nthLine line text
  let size := byteCount ((text.drop span.start).take (span.stop - span.start))
  let marks := max 1 (min size (byteCount content - column))
  let margin := repeated ' ' (number.length + 1) ++ "|"
  title ++ " at line " ++ number ++ ", column " ++ toString (column + 1) ++ "\n" ++
    margin ++ "\n" ++ number ++ " | " ++ String.ofList content ++ "\n" ++
    margin ++ repeated ' ' (column + 1) ++ repeated '^' marks ++ "\n" ++ message ++ "\n"

end Text
end CommandBridge
