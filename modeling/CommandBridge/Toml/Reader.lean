/-
# Readers

A reader takes characters off the front of a text or stops.  Where it stops
decides what is reported, and a stop says whether other readers may be tried:

* after a stop that is not *committed* `either` tries its other reader, and
  `optional`, `orElse`, `many` and `separated` go on from where they were;
* a committed stop ends all reading.

`labelled` and `expecting` add to a stop what was being read and what was looked
for.  Of several labels the innermost is told, the expectations are all told.
-/

import CommandBridge.Toml.Basic

namespace CommandBridge
namespace Toml

/-- What is wrong where reading stopped. -/
structure Complaint where
  label : Option String := none
  expected : List String := []
  fault : Option Fault := none
deriving Inhabited, Repr

/-- The wording of a complaint: up to three lines. -/
def Complaint.message (c : Complaint) : String :=
  let expected := if c.expected.isEmpty then [] else ["expected " ++ ", ".intercalate c.expected]
  "\n".intercalate
    ((c.label.map ("invalid " ++ ·)).toList ++ expected ++ (c.fault.map Fault.message).toList)

/-- Where and why reading stopped. -/
structure Stop where
  place : Nat
  committed : Bool := false
  complaint : Complaint := {}
deriving Inhabited, Repr

/-- The characters that are left, and the number of those before them. -/
structure Cursor where
  rest : List Char
  place : Nat := 0
deriving Inhabited, Repr

namespace Cursor

/-- The cursor behind some more characters. -/
def skip (c : Cursor) (n : Nat) : Cursor :=
  ⟨c.rest.drop n, c.place + n⟩

/-- The stop at a cursor. -/
def stop (c : Cursor) : Stop :=
  { place := c.place }

end Cursor

/-- Takes characters off the front of a text. -/
abbrev Reader := StateT Cursor (Except Stop)

namespace Reader

variable {α β : Type}

/-! ### Characters -/

/-- Stops. -/
def fail : Reader α := fun c =>
  .error c.stop

/-- The next character, which is not taken. -/
def next? : Reader (Option Char) := fun c =>
  .ok (c.rest.head?, c)

/-- Whether the given characters come next; they are not taken. -/
def ahead (word : List Char) : Reader Bool := fun c =>
  .ok (word.isPrefixOf c.rest, c)

/-- A character of some class. -/
def charOf (p : Char → Bool) : Reader Char := fun c =>
  match c.rest with
  | x :: _ => if p x then .ok (x, c.skip 1) else .error c.stop
  | [] => .error c.stop

/-- A given character. -/
def char (x : Char) : Reader Unit := do
  let _ ← charOf (· == x)

/-- Given characters, all or none. -/
def chars (word : List Char) : Reader Unit := fun c =>
  if word.isPrefixOf c.rest then .ok ((), c.skip word.length) else .error c.stop

/-- All characters of a class from here on. -/
def run (p : Char → Bool) : Reader (List Char) := fun c =>
  let taken := c.rest.takeWhile p
  .ok (taken, c.skip taken.length)

/-- One or more characters of a class. -/
def run1 (p : Char → Bool) : Reader (List Char) := do
  let x ← charOf p
  return x :: (← run p)

/-- So many characters of a class, or none. -/
def exactly (n : Nat) (p : Char → Bool) : Reader (List Char) := fun c =>
  let taken := (c.rest.take n).takeWhile p
  if taken.length = n then .ok (taken, c.skip n) else .error c.stop

/-- The number of characters that are left. -/
def left : Reader Nat := fun c =>
  .ok (c.rest.length, c)

/-- Goes on only if so many characters are left. -/
def atLeast (n : Nat) : Reader Unit := fun c =>
  if n ≤ c.rest.length then .ok ((), c) else .error c.stop

/-- Goes on only at the end of the text. -/
def atEnd : Reader Unit := fun c =>
  if c.rest.isEmpty then .ok ((), c) else .error c.stop

/-! ### Choice and repetition -/

/-- What the first reader reads, or else the second. -/
def either (p q : Reader α) : Reader α := fun c =>
  match p c with
  | .ok r => .ok r
  | .error e => if e.committed then .error e else q c

/-- What a reader reads; where it stops without being committed, nothing counts as
read. -/
def attempt (p : Reader α) : Reader α :=
  either p fail

/-- What a reader reads, or nothing. -/
def optional (p : Reader α) : Reader (Option α) :=
  either (do return some (← p)) (pure none)

/-- What a reader reads, or else a default without reading. -/
def orElse (a : α) (p : Reader α) : Reader α :=
  either p (pure a)

/-- As often as possible, up to a number of times. -/
def upTo (p : Reader α) : Nat → Reader (List α)
  | 0 => pure []
  | n + 1 => do
    match ← optional p with
    | some a => return a :: (← upTo p n)
    | none => return []

/-- As often as possible. -/
def many (p : Reader α) : Reader (List α) := fun c =>
  upTo p c.rest.length c

/-- One or more items with separators between them. -/
def separated (item : Reader α) (separator : Char) : Reader (List α) := do
  let first ← item
  return first :: (← many do
    char separator
    item)

/-! ### Stops -/

/-- Commits to a reader: no other is tried when it stops. -/
def committed (p : Reader α) : Reader α := fun c =>
  match p c with
  | .ok r => .ok r
  | .error e => .error { e with committed := true }

/-- Changes what is complained about when a reader stops. -/
def complaining (change : Complaint → Complaint) (p : Reader α) : Reader α := fun c =>
  match p c with
  | .ok r => .ok r
  | .error e => .error { e with complaint := change e.complaint }

/-- Tells what is being read, unless that is told already. -/
def labelled (label : String) : Reader α → Reader α :=
  complaining fun c => { c with label := c.label.or (some label) }

/-- Tells what was looked for. -/
def expecting (what : List String) : Reader α → Reader α :=
  complaining fun c => { c with expected := c.expected ++ what }

/-- What a function makes of what was read; where it finds a fault, nothing counts
as read. -/
def refine (p : Reader α) (f : α → Except Fault β) : Reader β := fun c =>
  match p c with
  | .ok (a, rest) =>
    match f a with
    | .ok b => .ok (b, rest)
    | .error fault => .error { c.stop with complaint := { fault := some fault } }
  | .error e => .error e

/-- Stops because of a fault. -/
def faulty (fault : Fault) : Reader α :=
  refine (pure ()) fun _ => .error fault

/-- What a function makes of what was read; where it makes nothing of it, all reading
ends before what was read. -/
def settle (p : Reader α) (f : α → Except (Option Fault) β) : Reader β := fun c =>
  match p c with
  | .ok (a, rest) =>
    match f a with
    | .ok b => .ok (b, rest)
    | .error fault => .error { c.stop with committed := true, complaint := { fault := fault } }
  | .error e => .error e

/-- What was read, with the stretch it was read from. -/
def located (p : Reader α) : Reader (α × Text.Span) := fun c =>
  match p c with
  | .ok (a, rest) => .ok ((a, ⟨c.place, rest.place⟩), rest)
  | .error e => .error e

end Reader
end Toml
end CommandBridge
