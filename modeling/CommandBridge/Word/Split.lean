/-
# Reading list text

The elements of a list stand between blanks.  An element that starts with a
brace reaches to the closing one and is taken as it stands; one that starts
with a quote reaches to the next quote, and any other to the next blank, both
with backslash sequences replaced.  After a brace or a quote that closes an
element there must be a blank or the end.
-/

import CommandBridge.Text.Blank
import CommandBridge.Word.Brace

namespace CommandBridge
namespace Word

/-- Why a text is no list. -/
inductive SplitError where
  | unclosedBrace
  | unclosedQuote
  /-- Characters right behind a closing brace, up to the next blank. -/
  | afterBrace (found : String)
  /-- Characters right behind a closing quote, up to the next blank. -/
  | afterQuote (found : String)
deriving DecidableEq, Repr

/-- The wording of the errors. -/
def SplitError.message : SplitError → String
  | .unclosedBrace => "unmatched open brace in list"
  | .unclosedQuote => "unmatched open quote in list"
  | .afterBrace found => "list element in braces followed by \"" ++ found ++ "\" instead of space"
  | .afterQuote found => "list element in quotes followed by \"" ++ found ++ "\" instead of space"

/-- The rest of a quoted element, with the characters behind its closing quote. -/
def quoted : List Char → Option (List Char × List Char)
  | [] => none
  | '"' :: r => some ([], r)
  | c :: r =>
    if c == '\\' then
      (quoted (escape r).2).map fun (text, rest) => ((escape r).1 :: text, rest)
    else (quoted r).map fun (text, rest) => (c :: text, rest)
termination_by cs => cs.length
decreasing_by
  · exact Nat.lt_succ_of_le (length_escape_le r)
  · simp

theorem length_lt_of_quoted {cs text rest : List Char} (h : quoted cs = some (text, rest)) :
    rest.length < cs.length := by
  fun_induction quoted cs generalizing text with
  | case1 => cases h
  | case2 => cases h; simp
  | case3 c r _ hc ih =>
    obtain ⟨⟨a, b⟩, hab, h⟩ := Option.map_eq_some_iff.1 h
    cases h
    have := ih hab
    have := length_escape_le r
    simp only [List.length_cons]
    omega
  | case4 c r _ hc ih =>
    obtain ⟨⟨a, b⟩, hab, h⟩ := Option.map_eq_some_iff.1 h
    cases h
    have := ih hab
    simp only [List.length_cons]
    omega

/-- A bare element, with the characters from the next blank on. -/
def bare : List Char → List Char × List Char
  | [] => ([], [])
  | c :: r =>
    if Text.isBlank c then ([], c :: r)
    else if c == '\\' then
      (bare (escape r).2).map ((escape r).1 :: ·) id
    else (bare r).map (c :: ·) id
termination_by cs => cs.length
decreasing_by
  · exact Nat.lt_succ_of_le (length_escape_le r)
  · simp

theorem length_bare_le (cs : List Char) : (bare cs).2.length ≤ cs.length := by
  fun_induction bare cs with
  | case1 => simp
  | case2 => simp
  | case3 c r _ _ ih =>
    have := length_escape_le r
    simp only [Prod.map_snd, id_eq, List.length_cons]
    omega
  | case4 c r _ _ ih =>
    simp only [Prod.map_snd, id_eq, List.length_cons]
    omega

theorem length_bare_lt {c : Char} (h : Text.isBlank c = false) (r : List Char) :
    (bare (c :: r)).2.length < (c :: r).length := by
  rw [bare]
  simp only [h, Bool.false_eq_true, if_false]
  split
  · have := length_bare_le (escape r).2
    have := length_escape_le r
    simp only [Prod.map_snd, id_eq, List.length_cons]
    omega
  · have := length_bare_le r
    simp only [Prod.map_snd, id_eq, List.length_cons]
    omega

/-- The characters up to the next blank. -/
def upToBlank (cs : List Char) : String :=
  String.ofList (cs.takeWhile fun c => !Text.isBlank c)

/-- Whether an element may end here. -/
def atBoundary (cs : List Char) : Bool :=
  cs.head?.all Text.isBlank

/-- The elements of a list text. -/
def split : List Char → Except SplitError (List (List Char))
  | [] => .ok []
  | c :: r =>
    if _hc : Text.isBlank c then split r
    else if c == '\x7b' then
      match _h : closeBrace 0 r with
      | none => .error .unclosedBrace
      | some (text, rest) =>
        if atBoundary rest then (split rest).map (text :: ·)
        else .error (.afterBrace (upToBlank rest))
    else if c == '"' then
      match _h : quoted r with
      | none => .error .unclosedQuote
      | some (text, rest) =>
        if atBoundary rest then (split rest).map (text :: ·)
        else .error (.afterQuote (upToBlank rest))
    else
      match _h : bare (c :: r) with
      | (text, rest) => (split rest).map (text :: ·)
termination_by cs => cs.length
decreasing_by
  · simp
  · exact Nat.lt_succ_of_lt (length_lt_of_closeBrace _h)
  · exact Nat.lt_succ_of_lt (length_lt_of_quoted _h)
  · exact congrArg (·.2.length) _h ▸ length_bare_lt (by simpa using _hc) r

/-- The elements of a list text. -/
def splitText (s : String) : Except SplitError (List String) :=
  (split s.toList).map (·.map String.ofList)

end Word
end CommandBridge
