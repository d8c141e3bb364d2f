/-
# Commands on lists

`list`, `llength`, `lindex`, `concat` and `join`.  An index is an integer or
`end`, or `end-` and an integer; it is computed in words of 64 bits.
-/

import CommandBridge.Builtin.Basic

namespace CommandBridge
namespace Builtin

/-- The position that lies `back` before the last one of a list of `length` elements. -/
def positionBack (length : Nat) (back : Int64) : Except Integer.Refusal Int64 :=
  Integer.checked .subtract (length - 1 - back.toInt)

/-- The position in a list of `length` elements that an index text means, not
necessarily inside the list. -/
def indexPosition (index : Value) (length : Nat) : Except Integer.Refusal Int64 :=
  let text := Text.trim index.str
  match Text.dropMarker? "end" text with
  | none =>
    match index.getInt with
    | .ok position => .ok position
    | .error (.overflow cause) => .error (.overflow cause)
    | .error _ => .error .malformed
  | some behind =>
    if behind.isEmpty then positionBack length 0
    else
      (Integer.accept ((Text.dropMarker? "-" behind).bind fun back =>
        Integer.plain? 10 back.toList)).bind (positionBack length)

/-- Why an element cannot be picked. -/
inductive IndexError where
  | access (cause : Value.AccessError)
  | badIndex (found : String)
  | overflow (cause : Integer.Overflow)
deriving DecidableEq

/-- The wording of the errors. -/
def IndexError.message : IndexError → String
  | .access cause => cause.message
  | .badIndex found =>
    "bad index \"" ++ found ++ "\": must be integer?[+-]integer? or end?[+-]integer?"
  | .overflow cause => cause.message

/-- The element of a list at an index; nothing outside the list. -/
def pick (listed index : Value) : Except IndexError (Option Value) :=
  match listed.getList with
  | .error e => .error (.access e)
  | .ok elements =>
    match indexPosition index elements.length with
    | .error .malformed => .error (.badIndex (Text.trim index.str))
    | .error (.overflow cause) => .error (.overflow cause)
    | .ok p => .ok (if 0 ≤ p.toInt then elements[p.toInt.toNat]? else none)

/-- Picks elements of elements.  An index outside the list gives the empty
value, whatever further indices there are. -/
def pickEach (listed : Value) : List Value → Except IndexError Value
  | [] => .ok listed
  | index :: rest =>
    match pick listed index with
    | .error e => .error e
    | .ok none => .ok .empty
    | .ok (some element) => pickEach element rest

/-- Picking overflows at the position of an index only. -/
theorem exists_of_pickEach_overflow {listed : Value} {indices : List Value}
    {o : Integer.Overflow} (h : pickEach listed indices = .error (.overflow o)) :
    ∃ index ∈ indices, ∃ length, indexPosition index length = .error (.overflow o) := by
  induction indices generalizing listed with
  | nil => cases h
  | cons index rest ih =>
    rw [pickEach] at h
    split at h
    · rename_i hpick
      obtain rfl := Except.error.inj h
      unfold pick at hpick
      split at hpick
      · cases hpick
      · split at hpick
        · cases hpick
        · rename_i hposition
          obtain rfl := IndexError.overflow.inj (Except.error.inj hpick)
          exact ⟨index, List.mem_cons_self, _, hposition⟩
        · cases hpick
    · cases h
    · obtain ⟨index, hindex, hposition⟩ := ih h
      exact ⟨index, List.mem_cons_of_mem _ hindex, hposition⟩

/-- The trimmed texts of values that are not blank, with single spaces between
them. -/
def concatText (values : List Value) : String :=
  " ".intercalate ((values.map fun v => Text.trim v.str).filter (!·.isEmpty))

def runList (i : Nat) (words : List Value) : Program Status :=
  answer i (.list words.tail)

def runLlength (i : Nat) (words : List Value) : Program Status :=
  match words with
  | [_, listed] => withRead i listed.getList fun elements =>
      answer i (.int (Int64.ofNat elements.length))
  | _ => Interp.wrongNumArgs i words 1 "list"

def runLindex (i : Nat) (words : List Value) : Program Status :=
  match words with
  | _ :: listed :: indices =>
    match pickEach listed indices with
    | .ok v => answer i v
    | .error (.overflow cause) => .overflow cause
    | .error e => Interp.fail i e.message
  | _ => Interp.wrongNumArgs i words 1 "list ?index ...?"

def runConcat (i : Nat) (words : List Value) : Program Status :=
  answer i (.text (concatText words.tail))

/-- The texts of list elements with a separator between them. -/
def joinWith (i : Nat) (listed : Value) (separator : String) : Program Status :=
  withRead i listed.getList fun elements =>
    answer i (.text (separator.intercalate (elements.map Value.str)))

def runJoin (i : Nat) (words : List Value) : Program Status :=
  match words with
  | [_, listed] => joinWith i listed " "
  | [_, listed, separator] => joinWith i listed separator.str
  | _ => Interp.wrongNumArgs i words 1 "list ?joinString?"

end Builtin
end CommandBridge
