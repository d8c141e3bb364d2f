/-
# Braced text

Between braces every character stands for itself.  Braces nest, and a backslash
keeps the next character from counting as a brace; both stay in the text.
-/

import CommandBridge.Word.Escape

namespace CommandBridge
namespace Word

/-- Splits characters at the brace that closes `depth + 1` open ones: the
characters before it and those after it. -/
def closeBrace : Nat → List Char → Option (List Char × List Char)
  | _, [] => none
  | _, ['\\'] => none
  | depth, '\\' :: c :: r => (closeBrace depth r).map fun (text, rest) => ('\\' :: c :: text, rest)
  | depth, '{' :: r => (closeBrace (depth + 1) r).map fun (text, rest) => ('{' :: text, rest)
  | 0, '}' :: r => some ([], r)
  | depth + 1, '}' :: r => (closeBrace depth r).map fun (text, rest) => ('}' :: text, rest)
  | depth, c :: r => (closeBrace depth r).map fun (text, rest) => (c :: text, rest)

/-- The closing brace is one of the characters: nothing is lost but it. -/
theorem append_of_closeBrace {depth : Nat} {cs text rest : List Char}
    (h : closeBrace depth cs = some (text, rest)) : cs = text ++ '}' :: rest := by
  fun_induction closeBrace depth cs generalizing text rest <;>
    simp_all [Option.map_eq_some_iff]
  all_goals
    rename_i ih
    obtain ⟨a, b, h, rfl, rfl⟩ := h
    simp_all

theorem closeBrace_suffix {depth : Nat} {cs text rest : List Char}
    (h : closeBrace depth cs = some (text, rest)) : rest <:+ cs := by
  rw [append_of_closeBrace h]
  exact (List.suffix_cons _ rest).trans (List.suffix_append _ _)

theorem length_lt_of_closeBrace {depth : Nat} {cs text rest : List Char}
    (h : closeBrace depth cs = some (text, rest)) : rest.length < cs.length := by
  rw [append_of_closeBrace h]
  simp only [List.length_append, List.length_cons]
  omega

/-- Whether the braces of a text close each other, backslashes taken into
account, `depth` of them being open at its start. -/
def balancedFrom : Nat → List Char → Bool
  | depth, [] => depth == 0
  | depth, ['\\'] => depth == 0
  | depth, '\\' :: _ :: r => balancedFrom depth r
  | depth, '{' :: r => balancedFrom (depth + 1) r
  | 0, '}' :: _ => false
  | depth + 1, '}' :: r => balancedFrom depth r
  | depth, _ :: r => balancedFrom depth r

/-- Whether the braces of a text close each other. -/
def balanced (cs : List Char) : Bool :=
  balancedFrom 0 cs

end Word
end CommandBridge
