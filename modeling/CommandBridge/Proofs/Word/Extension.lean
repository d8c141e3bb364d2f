/-
# Readers with more text behind

A reader that has come to its end before the text does finds the same when there is
more text.  It is at the end of the text that this takes a reason.  A closing brace
or quote was found inside of the text, so nothing behind can matter
(`closeBrace_extend`, `quoted_extend`).  A backslash sequence that reaches to the end
may go on: a backslash takes any character, digits take further digits and a line
feed takes blanks.  `Parts` says of the text behind that it does nothing of this
(`escape_append`).
-/

import CommandBridge.Proofs.Word.Quoting
import CommandBridge.Word.Split
import Mathlib.Tactic.SplitIfs

namespace CommandBridge
namespace Word

/-! ### Backslash sequences -/

theorem leadingDigits_zero (base : Nat) (r : List Char) : leadingDigits base 0 r = [] := by
  rw [leadingDigits, List.take_zero, List.takeWhile_nil]

theorem leadingDigits_cons (base n : Nat) (c : Char) (r : List Char) :
    leadingDigits base (n + 1) (c :: r) =
      if isDigitOf base c then c :: leadingDigits base n r else [] := by
  rw [leadingDigits, List.take_succ_cons, List.takeWhile_cons, leadingDigits]

/-- Digits end where they ended if something else stands there, or if no digit
comes next. -/
theorem leadingDigits_append {base limit : Nat} {r m : List Char}
    (h : r.drop (leadingDigits base limit r).length ≠ [] ∨
      ∀ c ∈ m.head?, isDigitOf base c = false) :
    leadingDigits base limit (r ++ m) = leadingDigits base limit r := by
  induction r generalizing limit with
  | nil =>
    have hm : ∀ c ∈ m.head?, isDigitOf base c = false := h.resolve_left (by simp)
    cases limit with
    | zero => rw [leadingDigits_zero, leadingDigits_zero]
    | succ n =>
      cases m with
      | nil => rfl
      | cons c m =>
        rw [List.nil_append, leadingDigits_cons, hm c rfl]
        rfl
  | cons c r ih =>
    cases limit with
    | zero => rw [leadingDigits_zero, leadingDigits_zero]
    | succ n =>
      rw [leadingDigits_cons] at h
      rw [List.cons_append, leadingDigits_cons, leadingDigits_cons]
      split_ifs with hc
      · rw [if_pos hc] at h
        rw [ih h]
      · rfl

theorem length_leadingDigits_le (base limit : Nat) (r : List Char) :
    (leadingDigits base limit r).length ≤ r.length :=
  ((List.takeWhile_prefix _).trans (List.take_prefix _ _)).length_le

/-- What is no digit of a base is none of a smaller one. -/
theorem isDigitOf_mono {b b' : Nat} (h : b ≤ b') {c : Char} (hc : isDigitOf b' c = false) :
    isDigitOf b c = false := by
  unfold isDigitOf Integer.digit? at hc ⊢
  dsimp only at hc ⊢
  split_ifs at hc ⊢ <;> first | rfl | omega

/-- What stands behind a sequence does not belong to it: there is something of the
sequence, and no digit and no blank of a line feed follows. -/
def Parts (r m : List Char) : Prop :=
  r ≠ [] ∧ ∀ c ∈ m.head?, isDigitOf 16 c = false ∧ (r.head? = some '\n' → c ≠ ' ' ∧ c ≠ '\t')

theorem escapeHex_append {c : Char} {limit : Nat} {r m : List Char}
    (h : (escapeHex c limit r).2 ≠ [] ∨ ∀ d ∈ m.head?, isDigitOf 16 d = false) :
    escapeHex c limit (r ++ m) = ((escapeHex c limit r).1, (escapeHex c limit r).2 ++ m) := by
  unfold escapeHex at h ⊢
  dsimp only at h ⊢
  have hd : leadingDigits 16 limit (r ++ m) = leadingDigits 16 limit r := by
    refine leadingDigits_append (h.imp_left fun hr => ?_)
    split_ifs at hr with he
    · rw [List.isEmpty_iff.1 he]
      exact hr
    · exact hr
  rw [hd]
  split_ifs
  · rfl
  · rw [List.drop_append_of_le_length (length_leadingDigits_le _ _ _)]

/-- What no other sequence starts with may start octal digits. -/
theorem escape_octal {c : Char} (hc : c ∉ ['a', 'b', 'f', 'n', 'r', 't', 'v', '\n', 'x', 'u'])
    (r : List Char) : escape (c :: r) =
      if (leadingDigits 8 3 (c :: r)).isEmpty then (c, r)
      else (Char.ofNat (digitsValue 8 (leadingDigits 8 3 (c :: r)) % 256),
        (c :: r).drop (leadingDigits 8 3 (c :: r)).length) := by
  simp only [List.mem_cons, List.not_mem_nil, or_false, not_or] at hc
  rw [escape]
  all_goals simp [hc]

theorem escape_append_octal {c : Char} {r m : List Char}
    (hc : c ∉ ['a', 'b', 'f', 'n', 'r', 't', 'v', '\n', 'x', 'u'])
    (h : (escape (c :: r)).2 ≠ [] ∨ Parts (c :: r) m) :
    escape (c :: r ++ m) = ((escape (c :: r)).1, (escape (c :: r)).2 ++ m) := by
  have hd : leadingDigits 8 3 (c :: r ++ m) = leadingDigits 8 3 (c :: r) := by
    refine leadingDigits_append (h.imp (fun hr => ?_)
      fun hp d hd => isDigitOf_mono (by decide) (hp.2 d hd).1)
    rw [escape_octal hc] at hr
    split_ifs at hr with he
    · rw [List.isEmpty_iff.1 he]
      exact List.cons_ne_nil _ _
    · exact hr
  rw [List.cons_append, escape_octal hc, escape_octal hc, ← List.cons_append, hd]
  split_ifs
  · rfl
  · rw [List.drop_append_of_le_length (length_leadingDigits_le _ _ _)]

theorem escape_append_newline {r m : List Char}
    (h : (escape ('\n' :: r)).2 ≠ [] ∨ Parts ('\n' :: r) m) :
    escape ('\n' :: r ++ m) = ((escape ('\n' :: r)).1, (escape ('\n' :: r)).2 ++ m) := by
  change (' ', (r ++ m).dropWhile _) = (' ', r.dropWhile _ ++ m)
  rw [List.dropWhile_append]
  split_ifs with hr
  · rw [List.isEmpty_iff.1 hr, List.nil_append]
    have hm := (h.resolve_left (absurd (List.isEmpty_iff.1 hr))).2
    cases m with
    | nil => rfl
    | cons c m =>
      obtain ⟨hs, ht⟩ := (hm c rfl).2 rfl
      rw [List.dropWhile_cons_of_neg (by simp [hs, ht])]
  · rfl

/-- **A backslash sequence is read as before** if something stood behind it or what
follows now does not belong to it. -/
theorem escape_append {r m : List Char} (h : (escape r).2 ≠ [] ∨ Parts r m) :
    escape (r ++ m) = ((escape r).1, (escape r).2 ++ m) := by
  cases r with
  | nil => exact absurd rfl (h.resolve_left (by simp [escape])).1
  | cons c r =>
    by_cases hc : c ∈ ['a', 'b', 'f', 'n', 'r', 't', 'v', '\n', 'x', 'u']
    case neg => exact escape_append_octal hc h
    have hdigits (hp : Parts (c :: r) m) (d) (hd : d ∈ m.head?) : isDigitOf 16 d = false :=
      (hp.2 d hd).1
    simp only [List.mem_cons, List.not_mem_nil, or_false] at hc
    rcases hc with rfl | rfl | rfl | rfl | rfl | rfl | rfl | rfl | rfl | rfl
    case inr.inr.inr.inr.inr.inr.inr.inl => exact escape_append_newline h
    case inr.inr.inr.inr.inr.inr.inr.inr.inl => exact escapeHex_append (h.imp_right hdigits)
    case inr.inr.inr.inr.inr.inr.inr.inr.inr => exact escapeHex_append (h.imp_right hdigits)
    all_goals rfl

theorem escapeHex_suffix (c : Char) (limit : Nat) (r : List Char) :
    (escapeHex c limit r).2 <:+ r := by
  unfold escapeHex
  dsimp only
  split_ifs
  · exact List.suffix_rfl
  · exact List.drop_suffix _ _

/-- What is left over is the end of what was given. -/
theorem escape_suffix (cs : List Char) : (escape cs).2 <:+ cs := by
  unfold escape
  split
  case h_1 => exact List.suffix_rfl
  case h_9 r => exact (List.dropWhile_suffix _).trans (List.suffix_cons _ _)
  case h_10 r => exact (escapeHex_suffix _ _ _).trans (List.suffix_cons _ _)
  case h_11 r => exact (escapeHex_suffix _ _ _).trans (List.suffix_cons _ _)
  case h_12 c r _ _ _ _ _ _ _ _ _ _ =>
    dsimp only
    split_ifs
    · exact List.suffix_cons _ _
    · exact List.drop_suffix _ _
  all_goals exact List.suffix_cons _ _

/-! ### Braces and quotes -/

/-- A closing brace that was found is found again. -/
theorem closeBrace_extend {depth : Nat} {cs text rest : List Char}
    (h : closeBrace depth cs = some (text, rest)) (m : List Char) :
    closeBrace depth (cs ++ m) = some (text, rest ++ m) := by
  fun_induction closeBrace depth cs generalizing text with
  | case1 => cases h
  | case2 => cases h
  | case3 depth c r ih | case4 depth r ih | case6 depth r ih =>
    obtain ⟨⟨a, b⟩, hab, h⟩ := Option.map_eq_some_iff.1 h
    cases h
    simp only [List.cons_append, closeBrace, ih hab, Option.map_some]
  | case5 r =>
    cases h
    rw [List.cons_append, closeBrace]
  | case7 depth c r h₁ h₂ h₃ h₄ h₅ ih =>
    obtain ⟨⟨a, b⟩, hab, h⟩ := Option.map_eq_some_iff.1 h
    cases h
    rw [List.cons_append, closeBrace_cons (ne_backslash h₁ h₂) h₃ (ne_closing h₄ h₅), ih hab,
      Option.map_some]

/-- A closing quote that was found is found again. -/
theorem quoted_extend {cs text rest : List Char} (h : quoted cs = some (text, rest))
    (m : List Char) : quoted (cs ++ m) = some (text, rest ++ m) := by
  fun_induction quoted cs generalizing text with
  | case1 => cases h
  | case2 r =>
    cases h
    rw [List.cons_append, quoted]
  | case3 c r hq hc ih =>
    obtain ⟨⟨a, b⟩, hab, h⟩ := Option.map_eq_some_iff.1 h
    cases h
    have hr : (escape r).2 ≠ [] := by
      intro hr
      rw [hr, quoted] at hab
      cases hab
    rw [List.cons_append, quoted, if_pos hc, escape_append (.inl hr), ih hab]
    · rfl
    · exact hq
  | case4 c r hq hc ih =>
    obtain ⟨⟨a, b⟩, hab, h⟩ := Option.map_eq_some_iff.1 h
    cases h
    rw [List.cons_append, quoted, if_neg hc, ih hab]
    · rfl
    · exact hq

end Word
end CommandBridge
