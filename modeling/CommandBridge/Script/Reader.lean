/-
# Reading scripts

Commands are separated by line feeds and semicolons, and a command that would
start with a hash sign is a comment up to the end of its line.  The words of a
command are separated by blanks; a backslash before a line feed makes the line
feed a blank.  A word is

* braced: up to the closing brace, without any substitution;
* quoted: up to the next quote, with substitution;
* bare: up to the next separator, with substitution.

Substitution replaces `$name`, `$name(key)`, a name in braces after `$`, a script
in brackets and backslash sequences.  Inside brackets a closing bracket ends
words, commands and the script.

The readers take the characters left over and give back a tree with the
characters behind it, never more than they took.
-/

import CommandBridge.Script.Tree
import CommandBridge.Text.Blank
import CommandBridge.Word.Brace

namespace CommandBridge
namespace Script

/-- Drops what may stand between commands. -/
def skipSeparators : List Char → List Char
  | [] => []
  | '\\' :: '\n' :: r => skipSeparators r
  | c :: r => if Text.isBlank c || c == ';' then skipSeparators r else c :: r

theorem length_skipSeparators_le (cs : List Char) :
    (skipSeparators cs).length ≤ cs.length := by
  fun_induction skipSeparators cs <;> simp_all <;> omega

/-- Drops what may stand between words. -/
def skipBlanks : List Char → List Char
  | [] => []
  | '\\' :: '\n' :: r => skipBlanks r
  | c :: r => if Text.isBlank c && c != '\n' then skipBlanks r else c :: r

theorem length_skipBlanks_le (cs : List Char) : (skipBlanks cs).length ≤ cs.length := by
  fun_induction skipBlanks cs <;> simp_all <;> omega

/-- Drops the rest of a comment with the line feed that ends it. -/
def skipComment : List Char → List Char
  | [] => []
  | ['\\'] => []
  | '\\' :: _ :: r => skipComment r
  | '\n' :: r => r
  | _ :: r => skipComment r

theorem length_skipComment_le (cs : List Char) : (skipComment cs).length ≤ cs.length := by
  fun_induction skipComment cs <;> simp_all <;> omega

/-- Where a sequence of pieces ends. -/
inductive Context where
  /-- At a separator; inside brackets also at the closing one. -/
  | bare (nested : Bool)
  /-- Behind the next quote. -/
  | quoted
  /-- Behind the next closing parenthesis. -/
  | key
deriving DecidableEq, Repr

/-- Whether a word may end at these characters. -/
def atWordEnd (nested : Bool) : List Char → Bool
  | [] => true
  | c :: _ => Text.isBlank c || c == ';' || (nested && c == ']')

/-- Whether a bare word ends at these characters; a backslash before a line feed
is a separator. -/
def atBareEnd (nested : Bool) : List Char → Bool
  | '\\' :: '\n' :: _ => true
  | cs => atWordEnd nested cs

/-- What the end of the characters means for a sequence of pieces. -/
def Context.atEnd : Context → Pieces
  | .bare _ => .done
  | .quoted => .cons (.fail .missingQuote) .done
  | .key => .cons (.fail .missingParenthesis) .done

/-- Whether a character closes the sequence and belongs to it. -/
def Context.closes : Context → Char → Bool
  | .bare _, _ => false
  | .quoted, c => c == '"'
  | .key, c => c == ')'

/-- Whether the sequence ends before these characters. -/
def Context.stops : Context → List Char → Bool
  | .bare nested, cs => atBareEnd nested cs
  | .quoted, _ => false
  | .key, _ => false

/-- The longest variable name at the head of the characters: letters, digits,
underscores and pairs of colons. -/
def variableName : List Char → List Char × List Char
  | ':' :: ':' :: r => (variableName r).map (':' :: ':' :: ·) id
  | c :: r => if c.isAlphanum || c == '_' then (variableName r).map (c :: ·) id else ([], c :: r)
  | [] => ([], [])

theorem length_variableName_le (cs : List Char) : (variableName cs).2.length ≤ cs.length := by
  fun_induction variableName cs <;> simp_all <;> omega

/-- The characters before the first closing brace and those behind it. -/
def bracedName? : List Char → Option (List Char × List Char)
  | [] => none
  | '\x7d' :: r => some ([], r)
  | c :: r => (bracedName? r).map fun (name, rest) => (c :: name, rest)

theorem length_lt_of_bracedName? {cs name rest : List Char}
    (h : bracedName? cs = some (name, rest)) : rest.length < cs.length := by
  fun_induction bracedName? cs generalizing name with
  | case1 => cases h
  | case2 => cases h; exact Nat.lt_succ_self _
  | case3 c r _ ih =>
    obtain ⟨⟨name, rest⟩, hr, h⟩ := Option.map_eq_some_iff.1 h
    cases h
    exact Nat.lt_succ_of_lt (ih hr)

/-- What a reader gives back: a tree and the characters behind it, at most `n`. -/
abbrev Reading (α : Type) (n : Nat) :=
  { p : α × List Char // p.2.length ≤ n }

mutual

/-- Reads commands up to the end, or through the closing bracket if `nested`. -/
def readScript (nested : Bool) (cs : List Char) : Reading Script cs.length :=
  have hs := length_skipSeparators_le cs
  match _h : skipSeparators cs with
  | [] => ⟨(if nested then .fail .missingBracket else .done, []), Nat.zero_le _⟩
  | c :: r =>
    have hr : r.length < cs.length := by rw [_h] at hs; exact hs
    if nested && c == ']' then ⟨(.done, r), Nat.le_of_lt hr⟩
    else if c == '#' then
      have hc := length_skipComment_le r
      match readScript nested (skipComment r) with
      | ⟨next, hn⟩ => ⟨next, Nat.le_trans hn (Nat.le_trans hc (Nat.le_of_lt hr))⟩
    else
      match readCommand nested c r with
      | ⟨(words, behind), hw⟩ =>
        have hw : behind.length ≤ r.length := hw
        match readScript nested behind with
        | ⟨(rest, behind), hb⟩ =>
          ⟨(.command words rest, behind), Nat.le_trans hb (Nat.le_trans hw (Nat.le_of_lt hr))⟩
termination_by 6 * cs.length + 5
decreasing_by all_goals omega

/-- Reads the words of a command up to its end. -/
def readWords (nested : Bool) (cs : List Char) : Reading Words cs.length :=
  have hs := length_skipBlanks_le cs
  match _h : skipBlanks cs with
  | [] => ⟨(.done, []), Nat.zero_le _⟩
  | c :: r =>
    have hr : r.length < cs.length := by rw [_h] at hs; exact hs
    if c == '\n' || c == ';' then ⟨(.done, r), Nat.le_of_lt hr⟩
    else if nested && c == ']' then ⟨(.done, c :: r), hr⟩
    else
      match readCommand nested c r with
      | ⟨words, hw⟩ => ⟨words, Nat.le_trans hw (Nat.le_of_lt hr)⟩
termination_by 6 * cs.length + 4
decreasing_by all_goals omega

/-- Reads the words of a command whose first word starts with `c`. -/
def readCommand (nested : Bool) (c : Char) (r : List Char) : Reading Words r.length :=
  if c == '\x7b' then
    match _h : Word.closeBrace 0 r with
    | none => ⟨(.fail .missingBrace, []), Nat.zero_le _⟩
    | some (text, behind) =>
      have hb := Word.length_lt_of_closeBrace _h
      if atWordEnd nested behind then
        match readWords nested behind with
        | ⟨(rest, behind), hn⟩ =>
          ⟨(.literal (String.ofList text) rest, behind), Nat.le_trans hn (Nat.le_of_lt hb)⟩
      else ⟨(.fail .afterBrace, []), Nat.zero_le _⟩
  else if c == '"' then
    match readPieces .quoted r with
    | ⟨(pieces, behind), hp⟩ =>
      have hp : behind.length ≤ r.length := hp
      if atWordEnd nested behind then
        match readWords nested behind with
        | ⟨(rest, behind), hn⟩ => ⟨(.word pieces rest, behind), Nat.le_trans hn hp⟩
      else ⟨(.word pieces (.fail .afterQuote), []), Nat.zero_le _⟩
  else
    match readPiece c r with
    | ⟨(first, behind), hf⟩ =>
      have hf : behind.length ≤ r.length := hf
      match readPieces (.bare nested) behind with
      | ⟨(pieces, behind), hp⟩ =>
        have hp : behind.length ≤ r.length := Nat.le_trans hp hf
        match readWords nested behind with
        | ⟨(rest, behind), hn⟩ =>
          ⟨(.word (.cons first pieces) rest, behind), Nat.le_trans hn hp⟩
termination_by 6 * (r.length + 1) + 3
decreasing_by all_goals omega

/-- Reads pieces up to the end that the context sets. -/
def readPieces (context : Context) (cs : List Char) : Reading Pieces cs.length :=
  match cs with
  | [] => ⟨(context.atEnd, []), Nat.le_refl _⟩
  | c :: r =>
    if context.closes c then ⟨(.done, r), Nat.le_succ _⟩
    else if context.stops (c :: r) then ⟨(.done, c :: r), Nat.le_refl _⟩
    else
      match readPiece c r with
      | ⟨(piece, behind), hp⟩ =>
        have hp : behind.length ≤ r.length := hp
        match readPieces context behind with
        | ⟨(rest, behind), hn⟩ =>
          ⟨(.cons piece rest, behind), Nat.le_succ_of_le (Nat.le_trans hn hp)⟩
termination_by 6 * cs.length + 2
decreasing_by all_goals rw [List.length_cons]; omega

/-- Reads one piece that starts with `c`. -/
def readPiece (c : Char) (r : List Char) : Reading Piece r.length :=
  if c == '$' then
    match r with
    | '\x7b' :: r =>
      match _h : bracedName? r with
      | none => ⟨(.fail .missingNameBrace, []), Nat.zero_le _⟩
      | some (name, behind) =>
        ⟨(.var (String.ofList name), behind),
          Nat.le_succ_of_le (Nat.le_of_lt (length_lt_of_bracedName? _h))⟩
    | r =>
      have hv := length_variableName_le r
      match _h : variableName r with
      | (name, '(' :: behind) =>
        have hb : behind.length < r.length := by rw [_h] at hv; exact hv
        match readPieces .key behind with
        | ⟨(key, behind), hk⟩ =>
          ⟨(.elem (String.ofList name) key, behind), Nat.le_trans hk (Nat.le_of_lt hb)⟩
      | (name, behind) =>
        ⟨(if name.isEmpty then .char '$' else .var (String.ofList name), behind), by
          rw [_h] at hv; exact hv⟩
  else if c == '[' then
    match readScript true r with
    | ⟨(script, behind), hb⟩ => ⟨(.script script, behind), hb⟩
  else if c == '\\' then
    ⟨(.char (Word.escape r).1, (Word.escape r).2), Word.length_escape_le r⟩
  else ⟨(.char c, r), Nat.le_refl _⟩
termination_by 6 * (r.length + 1) + 1
decreasing_by all_goals omega

end

/-- The tree of a script. -/
def ofChars (cs : List Char) : Script :=
  (readScript false cs).1.1

/-- The tree of a script. -/
def ofText (source : String) : Script :=
  ofChars source.toList

end Script
end CommandBridge
