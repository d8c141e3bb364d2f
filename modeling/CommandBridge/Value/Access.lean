/-
# Reading values

A value is read as a number, as a list or as bytes from what it carries if that
fits, and from its text otherwise.  White space around a number is ignored.  An
overflow on the way is not an error that a reader could go on with.
-/

import CommandBridge.Value.Basic
import CommandBridge.Word.Split

namespace CommandBridge
namespace Value

/-- Why a value cannot be read. -/
inductive AccessError where
  | notInteger (found : String)
  | notDouble (found : String)
  | notList (cause : Word.SplitError)
  | overflow (cause : Integer.Overflow)
deriving DecidableEq

/-- The wording of the errors. -/
def AccessError.message : AccessError → String
  | .notInteger found => "expected integer but got \"" ++ found ++ "\""
  | .notDouble found => "expected floating-point number but got \"" ++ found ++ "\""
  | .notList cause => cause.message
  | .overflow cause => cause.message

/-- The integer that a value carries. -/
def int? : Value → Option Int64
  | .int i => some i
  | .boolean b => some (if b then 1 else 0)
  | _ => none

/-- The value as an integer. -/
def getInt (v : Value) : Except AccessError Int64 :=
  match v.int? with
  | some i => .ok i
  | none =>
    match Integer.literal (Text.trimChars v.str.toList) with
    | .ok i => .ok i
    | .error .malformed => .error (.notInteger v.str)
    | .error (.overflow cause) => .error (.overflow cause)

/-- The number that a value carries. -/
def number? : Value → Option Binary64
  | .double x => some x
  | .int i => some (Binary64.ofInt i.toInt)
  | .boolean b => some (Binary64.ofInt (if b then 1 else 0))
  | _ => none

/-- A text as a number: an integer literal or decimal text. -/
def numberOfText (cs : List Char) : Except Integer.Overflow (Option Binary64) :=
  match Integer.literal cs with
  | .ok i => .ok (some (Binary64.ofInt i.toInt))
  | .error .malformed => .ok (Binary64.ofText? cs)
  | .error (.overflow cause) => .error cause

/-- The value as a number. -/
def getDouble (v : Value) : Except AccessError Binary64 :=
  match v.number? with
  | some x => .ok x
  | none =>
    match numberOfText (Text.trimChars v.str.toList) with
    | .ok (some x) => .ok x
    | .ok none => .error (.notDouble v.str)
    | .error cause => .error (.overflow cause)

/-- The elements of the value as a list. -/
def getList : Value → Except AccessError (List Value)
  | .list elements => .ok elements
  | .empty => .ok []
  | v => ((Word.splitText v.str).map (·.map Value.text)).mapError .notList

/-- No integer is read on the way to a list. -/
theorem getList_ne_overflow (v : Value) {o : Integer.Overflow} :
    v.getList ≠ .error (.overflow o) := by
  have hsplit : ∀ r : Except Word.SplitError (List Value),
      r.mapError AccessError.notList ≠ .error (.overflow o) := by
    rintro (e | vs) h <;> cases h
  cases v with
  | list | empty => exact nofun
  | _ => exact hsplit _

/-- The bytes of the value; each character of a text gives the lowest eight
bits of its code point. -/
def getBytes : Value → Bytes
  | .bytes bs => bs
  | v => v.str.toList.map fun c => UInt8.ofNat c.toNat

/-- The shapes that matter when a value leaves the interpreter. -/
inductive Kind where
  | int
  | double
  | boolean
  | bytes
  | list
  | text
deriving DecidableEq, Repr

/-- The shape of a value; whatever has no shape of its own counts as text. -/
def kind : Value → Kind
  | .int _ => .int
  | .double _ => .double
  | .boolean _ => .boolean
  | .bytes _ => .bytes
  | .list _ => .list
  | _ => .text

end Value
end CommandBridge
