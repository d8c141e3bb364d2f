/-
# What the readers of a script give back

The readers carry a proof that they give back no more characters than they
took.  The equations here speak of the trees and the characters alone, one
equation for each reader, so that no later proof has to open a reader.

What a reader gives back is the end of what it took (`readScript_suffix`).
-/

import CommandBridge.Proofs.Word.Extension
import CommandBridge.Script.Reader
import Mathlib.Tactic.SplitIfs

namespace CommandBridge
namespace Script

theorem length_lt_of_skipSeparators {cs r : List Char} {c : Char}
    (h : skipSeparators cs = c :: r) : r.length < cs.length := by
  have hl := length_skipSeparators_le cs
  rw [h] at hl
  exact hl

theorem length_lt_of_skipBlanks {cs r : List Char} {c : Char} (h : skipBlanks cs = c :: r) :
    r.length < cs.length := by
  have hl := length_skipBlanks_le cs
  rw [h] at hl
  exact hl

theorem readScript_val (nested : Bool) (cs : List Char) : (readScript nested cs).1 =
    match skipSeparators cs with
    | [] => (if nested then .fail .missingBracket else .done, [])
    | c :: r =>
      if nested && c == ']' then (.done, r)
      else if c == '#' then (readScript nested (skipComment r)).1
      else
        (.command (readCommand nested c r).1.1 (readScript nested (readCommand nested c r).1.2).1.1,
          (readScript nested (readCommand nested c r).1.2).1.2) := by
  rw [readScript]
  split
  · rename_i h
    simp only [h]
  · rename_i c r h
    simp only [h]
    split_ifs <;> rfl

theorem readWords_val (nested : Bool) (cs : List Char) : (readWords nested cs).1 =
    match skipBlanks cs with
    | [] => (.done, [])
    | c :: r =>
      if c == '\n' || c == ';' then (.done, r)
      else if nested && c == ']' then (.done, c :: r)
      else (readCommand nested c r).1 := by
  rw [readWords]
  split
  · rename_i h
    simp only [h]
  · rename_i c r h
    simp only [h]
    split_ifs <;> rfl

theorem readCommand_val (nested : Bool) (c : Char) (r : List Char) :
    (readCommand nested c r).1 =
      if c == '\x7b' then
        match Word.closeBrace 0 r with
        | none => (.fail .missingBrace, [])
        | some (text, behind) =>
          if atWordEnd nested behind then
            (.literal (String.ofList text) (readWords nested behind).1.1,
              (readWords nested behind).1.2)
          else (.fail .afterBrace, [])
      else if c == '"' then
        if atWordEnd nested (readPieces .quoted r).1.2 then
          (.word (readPieces .quoted r).1.1 (readWords nested (readPieces .quoted r).1.2).1.1,
            (readWords nested (readPieces .quoted r).1.2).1.2)
        else (.word (readPieces .quoted r).1.1 (.fail .afterQuote), [])
      else
        let first := (readPiece c r).1
        let others := (readPieces (.bare nested) first.2).1
        (.word (.cons first.1 others.1) (readWords nested others.2).1.1,
          (readWords nested others.2).1.2) := by
  rw [readCommand]
  split_ifs with h₁ h₂ h₃
  · split
    · rename_i h
      simp only [h]
    · rename_i text behind h
      simp only [h]
      split_ifs <;> rfl
  · dsimp only
    rw [if_pos h₃]
  · dsimp only
    rw [if_neg h₃]
  · rfl

theorem readPieces_nil (context : Context) : (readPieces context []).1 = (context.atEnd, []) := by
  rw [readPieces]

theorem readPieces_cons (context : Context) (c : Char) (r : List Char) :
    (readPieces context (c :: r)).1 =
      if context.closes c then (.done, r)
      else if context.stops (c :: r) then (.done, c :: r)
      else
        (.cons (readPiece c r).1.1 (readPieces context (readPiece c r).1.2).1.1,
          (readPieces context (readPiece c r).1.2).1.2) := by
  rw [readPieces]
  split_ifs <;> rfl

theorem readPiece_braced (r : List Char) : (readPiece '$' ('\x7b' :: r)).1 =
    match bracedName? r with
    | none => (.fail .missingNameBrace, [])
    | some (name, behind) => (.var (String.ofList name), behind) := by
  rw [readPiece, if_pos (beq_self_eq_true _)]
  split
  · rename_i h
    simp only [h]
  · rename_i name behind h
    simp only [h]

theorem readPiece_elem {r name behind : List Char} (hr : ∀ r', r ≠ '\x7b' :: r')
    (h : variableName r = (name, '(' :: behind)) : (readPiece '$' r).1 =
      (.elem (String.ofList name) (readPieces .key behind).1.1,
        (readPieces .key behind).1.2) := by
  rw [readPiece, if_pos (beq_self_eq_true _)]
  · split
    · rename_i h'
      rw [h] at h'
      cases h'
      rfl
    · rename_i hb h'
      rw [h] at h'
      cases h'
      exact absurd rfl (hb behind)
  · exact hr

theorem readPiece_var {r name behind : List Char} (hr : ∀ r', r ≠ '\x7b' :: r')
    (hb : ∀ r', behind ≠ '(' :: r') (h : variableName r = (name, behind)) : (readPiece '$' r).1 =
      (if name.isEmpty then .char '$' else .var (String.ofList name), behind) := by
  rw [readPiece, if_pos (beq_self_eq_true _)]
  · split
    · rename_i h'
      rw [h] at h'
      cases h'
      exact absurd rfl (hb _)
    · rename_i h'
      rw [h] at h'
      cases h'
      rfl
  · exact hr

theorem readPiece_bracket (r : List Char) :
    (readPiece '[' r).1 = (.script (readScript true r).1.1, (readScript true r).1.2) := by
  rw [readPiece.eq_def]
  rfl

theorem readPiece_backslash (r : List Char) :
    (readPiece '\\' r).1 = (.char (Word.escape r).1, (Word.escape r).2) := by
  rw [readPiece.eq_def]
  rfl

theorem readPiece_char {c : Char} (hd : c ≠ '$') (hb : c ≠ '[') (he : c ≠ '\\') (r : List Char) :
    (readPiece c r).1 = (.char c, r) := by
  rw [readPiece.eq_def, if_neg (by simpa using hd), if_neg (by simpa using hb),
    if_neg (by simpa using he)]

/-! ### What is left over -/

theorem skipSeparators_suffix (cs : List Char) : skipSeparators cs <:+ cs := by
  fun_induction skipSeparators cs with
  | case1 => exact List.suffix_rfl
  | case2 r ih => exact ih.trans ⟨['\\', '\n'], rfl⟩
  | case3 c r _ _ ih => exact ih.trans (List.suffix_cons c r)
  | case4 => exact List.suffix_rfl

theorem skipBlanks_suffix (cs : List Char) : skipBlanks cs <:+ cs := by
  fun_induction skipBlanks cs with
  | case1 => exact List.suffix_rfl
  | case2 r ih => exact ih.trans ⟨['\\', '\n'], rfl⟩
  | case3 c r _ _ ih => exact ih.trans (List.suffix_cons c r)
  | case4 => exact List.suffix_rfl

theorem skipComment_suffix (cs : List Char) : skipComment cs <:+ cs := by
  fun_induction skipComment cs with
  | case1 => exact List.suffix_rfl
  | case2 => exact List.nil_suffix
  | case3 c r ih => exact ih.trans ⟨['\\', c], rfl⟩
  | case4 r => exact List.suffix_cons _ r
  | case5 c r _ _ _ ih => exact ih.trans (List.suffix_cons c r)

theorem variableName_suffix (cs : List Char) : (variableName cs).2 <:+ cs := by
  fun_induction variableName cs with
  | case1 r ih => exact ih.trans ⟨[':', ':'], rfl⟩
  | case2 c r _ _ ih => exact ih.trans (List.suffix_cons c r)
  | case3 => exact List.suffix_rfl
  | case4 => exact List.suffix_rfl

theorem bracedName?_suffix {cs name behind : List Char} (h : bracedName? cs = some (name, behind)) :
    behind <:+ cs := by
  fun_induction bracedName? cs generalizing name with
  | case1 => cases h
  | case2 r =>
    cases h
    exact List.suffix_cons _ _
  | case3 c r _ ih =>
    obtain ⟨⟨name, rest⟩, hr, h⟩ := Option.map_eq_some_iff.1 h
    cases h
    exact (ih hr).trans (List.suffix_cons c r)

mutual

theorem readScript_suffix (nested : Bool) (cs : List Char) :
    (readScript nested cs).1.2 <:+ cs := by
  have hs := skipSeparators_suffix cs
  rw [readScript_val]
  split
  · exact List.nil_suffix
  · rename_i c r h
    have hl := length_lt_of_skipSeparators h
    rw [h] at hs
    have hr : r <:+ cs := (List.suffix_cons c r).trans hs
    split_ifs
    · exact hr
    · have hc := length_skipComment_le r
      exact (readScript_suffix nested _).trans ((skipComment_suffix r).trans hr)
    · have hw := (readCommand nested c r).2
      exact (readScript_suffix nested _).trans ((readCommand_suffix nested c r).trans hr)
termination_by 6 * cs.length + 5
decreasing_by all_goals omega

theorem readWords_suffix (nested : Bool) (cs : List Char) : (readWords nested cs).1.2 <:+ cs := by
  have hs := skipBlanks_suffix cs
  rw [readWords_val]
  split
  · exact List.nil_suffix
  · rename_i c r h
    have hl := length_lt_of_skipBlanks h
    rw [h] at hs
    have hr : r <:+ cs := (List.suffix_cons c r).trans hs
    split_ifs
    · exact hr
    · exact hs
    · exact (readCommand_suffix nested c r).trans hr
termination_by 6 * cs.length + 4
decreasing_by all_goals omega

theorem readCommand_suffix (nested : Bool) (c : Char) (r : List Char) :
    (readCommand nested c r).1.2 <:+ r := by
  rw [readCommand_val]
  split
  · split
    · exact List.nil_suffix
    · rename_i text behind h
      have hl := Word.length_lt_of_closeBrace h
      split_ifs
      · exact (readWords_suffix nested behind).trans (Word.closeBrace_suffix h)
      · exact List.nil_suffix
  · split
    · have hp := (readPieces .quoted r).2
      split_ifs
      · exact (readWords_suffix nested _).trans (readPieces_suffix .quoted r)
      · exact List.nil_suffix
    · have hf := (readPiece c r).2
      have hp := (readPieces (.bare nested) (readPiece c r).1.2).2
      exact (readWords_suffix nested _).trans
        ((readPieces_suffix (.bare nested) _).trans (readPiece_suffix c r))
termination_by 6 * (r.length + 1) + 3
decreasing_by all_goals omega

theorem readPieces_suffix (context : Context) (cs : List Char) :
    (readPieces context cs).1.2 <:+ cs := by
  cases cs with
  | nil =>
    simp only [readPieces_nil, List.nil_suffix]
  | cons c r =>
    have hp := (readPiece c r).2
    rw [readPieces_cons]
    split_ifs
    · exact List.suffix_cons c r
    · exact List.suffix_rfl
    · exact (readPieces_suffix context _).trans
        ((readPiece_suffix c r).trans (List.suffix_cons c r))
termination_by 6 * cs.length + 2
decreasing_by all_goals (simp only [List.length_cons] at *; omega)

theorem readPiece_suffix (c : Char) (r : List Char) : (readPiece c r).1.2 <:+ r := by
  by_cases hd : c = '$'
  · subst hd
    exact readPiece_suffix_dollar r
  by_cases hb : c = '['
  · subst hb
    rw [readPiece_bracket]
    exact readScript_suffix true r
  by_cases he : c = '\\'
  · subst he
    rw [readPiece_backslash]
    exact Word.escape_suffix r
  simp only [readPiece_char hd hb he, List.suffix_rfl]
termination_by 6 * (r.length + 1) + 1
decreasing_by all_goals omega

/-- Behind a name in braces, or behind a name with a key or without. -/
theorem readPiece_suffix_dollar (r : List Char) : (readPiece '$' r).1.2 <:+ r := by
  by_cases hb : ∃ r', r = '\x7b' :: r'
  · obtain ⟨r, rfl⟩ := hb
    rw [readPiece_braced]
    split
    · exact List.nil_suffix
    · rename_i h
      exact (bracedName?_suffix h).trans (List.suffix_cons _ r)
  · have hr : ∀ r', r ≠ '\x7b' :: r' := fun r' hr => hb ⟨r', hr⟩
    have hl := length_variableName_le r
    have hs := variableName_suffix r
    generalize hn : variableName r = named at hl hs
    obtain ⟨name, behind⟩ := named
    by_cases hp : ∃ behind', behind = '(' :: behind'
    · obtain ⟨behind, rfl⟩ := hp
      rw [readPiece_elem hr hn]
      exact (readPieces_suffix .key behind).trans ((List.suffix_cons _ behind).trans hs)
    · rw [readPiece_var hr (fun r' hr' => hp ⟨r', hr'⟩) hn]
      exact hs
termination_by 6 * r.length + 3
decreasing_by all_goals (simp only [List.length_cons] at *; omega)

end

end Script
end CommandBridge
