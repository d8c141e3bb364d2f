/-
# The forms of a quoted element

`quote` writes a text in one of three forms, and each form is read by another
branch of the readers.  Two facts cover all three.

* Between braces a text stands as it is, and the reader stops at the brace that
  was put behind it (`closeBrace_append`): the balance that `quote` checks and
  the depth that `closeBrace` counts run alike over the text.
* Outside of braces every character stands for itself or behind a backslash
  (`Spelled`).  No character of a spelling is special but its backslashes, and
  what stands behind one of them is read as the character it was written for.

`quote_cases` says that an element has one of these two forms.
-/

import CommandBridge.Word.Quote
import Mathlib.Tactic.SplitIfs

namespace CommandBridge
namespace Word

/-! ### Between braces -/

theorem getLast?_ne_of_cons {α : Type} {a b : α} {l : List α}
    (h : (a :: l).getLast? ≠ some b) : l.getLast? ≠ some b := by
  cases l with
  | nil => simp
  | cons c l => rwa [List.getLast?_cons_cons] at h

/-- A character is no backslash if none is there that is the last one and none that
another one follows. -/
theorem ne_backslash {c : Char} {r : List Char} (hlast : c = '\\' → r = [] → False)
    (hcons : ∀ d r', c = '\\' → r = d :: r' → False) : c ≠ '\\' := by
  rintro rfl
  cases r with
  | nil => exact hlast rfl rfl
  | cons d r => exact hcons d r rfl rfl

/-- A character is no closing brace if none is there at any depth. -/
theorem ne_closing {depth : Nat} {c : Char} (hzero : depth = 0 → c = '\x7d' → False)
    (hsucc : ∀ n, depth = n + 1 → c = '\x7d' → False) : c ≠ '\x7d' := by
  rintro rfl
  cases depth with
  | zero => exact hzero rfl rfl
  | succ n => exact hsucc n rfl rfl

/-- A character that is neither a brace nor a backslash leaves the depth alone. -/
theorem closeBrace_cons {depth : Nat} {c : Char} {r : List Char} (hb : c ≠ '\\')
    (ho : c ≠ '\x7b') (hc : c ≠ '\x7d') :
    closeBrace depth (c :: r) =
      (closeBrace depth r).map fun (text, rest) => (c :: text, rest) := by
  rw [closeBrace] <;> simp [hb, ho, hc]

/-- **The brace behind a balanced text closes the one before it.**  A text that
ends in a backslash is left out: the backslash would hide the brace. -/
theorem closeBrace_append {depth : Nat} {cs : List Char} (h : balancedFrom depth cs = true)
    (hlast : cs.getLast? ≠ some '\\') (rest : List Char) :
    closeBrace depth (cs ++ '\x7d' :: rest) = some (cs, rest) := by
  induction depth, cs using balancedFrom.induct with
  | case1 depth =>
    obtain rfl : depth = 0 := by simpa [balancedFrom] using h
    rw [List.nil_append, closeBrace]
  | case2 => simp at hlast
  | case3 depth c r ih =>
    rw [balancedFrom] at h
    have hr := getLast?_ne_of_cons (getLast?_ne_of_cons hlast)
    rw [List.cons_append, List.cons_append, closeBrace, ih h hr, Option.map_some]
  | case4 depth r ih =>
    rw [balancedFrom] at h
    rw [List.cons_append, closeBrace, ih h (getLast?_ne_of_cons hlast), Option.map_some]
  | case5 => simp [balancedFrom] at h
  | case6 depth r ih =>
    rw [balancedFrom] at h
    rw [List.cons_append, closeBrace, ih h (getLast?_ne_of_cons hlast), Option.map_some]
  | case7 depth c r h₁ h₂ h₃ h₄ h₅ ih =>
    rw [balancedFrom] at h
    · rw [List.cons_append, closeBrace_cons (ne_backslash h₁ h₂) h₃ (ne_closing h₄ h₅),
        ih h (getLast?_ne_of_cons hlast), Option.map_some]
    all_goals assumption

/-! ### Outside of braces -/

theorem isBlank_of_not_isSpecial {c : Char} (h : isSpecial c = false) :
    Text.isBlank c = false := by
  simp only [isSpecial, Bool.or_eq_false_iff, and_assoc] at h
  exact h.1

theorem ne_of_not_isSpecial {c d : Char} (hc : isSpecial c = false) (hd : isSpecial d = true) :
    c ≠ d := by
  rintro rfl
  rw [hc] at hd
  cases hd

/-- `Spelled cs ds`: outside of braces the characters `ds` stand for `cs`. -/
inductive Spelled : List Char → List Char → Prop where
  | nil : Spelled [] []
  | plain {c : Char} {cs ds : List Char} (hc : isSpecial c = false) (h : Spelled cs ds) :
      Spelled (c :: cs) (c :: ds)
  | escaped {c d : Char} {cs ds : List Char} (hd : d ≠ '\n')
      (hc : ∀ r, escape (d :: r) = (c, r)) (h : Spelled cs ds) :
      Spelled (c :: cs) ('\\' :: d :: ds)

/-- A character that starts no longer sequence stands for itself behind a
backslash. -/
theorem escape_self {c : Char} (hc : c ∉ ['a', 'b', 'f', 'n', 'r', 't', 'v', '\n', 'x', 'u'])
    (ho : isDigitOf 8 c = false) (r : List Char) : escape (c :: r) = (c, r) := by
  have hs : leadingDigits 8 3 (c :: r) = [] := by simp [leadingDigits, ho]
  simp only [List.mem_cons, List.not_mem_nil, or_false, not_or] at hc
  rw [escape, hs]
  · rfl
  all_goals simp [hc]

/-- Every character is written as itself or behind a backslash. -/
theorem escaped_cases (c : Char) : (escaped c = [c] ∧ isSpecial c = false) ∨
    ∃ d, escaped c = ['\\', d] ∧ d ≠ '\n' ∧ ∀ r, escape (d :: r) = (c, r) := by
  by_cases hs : isSpecial c = true
  · right
    simp only [isSpecial, Text.isBlank, Bool.or_eq_true, beq_iff_eq, or_assoc] at hs
    rcases hs with rfl | rfl | rfl | rfl | rfl | rfl | rfl | rfl | rfl | rfl | rfl | rfl | rfl | rfl
    · exact ⟨' ', rfl, by decide, escape_self (by decide) rfl⟩
    · exact ⟨'t', rfl, by decide, fun _ => rfl⟩
    · exact ⟨'n', rfl, by decide, fun _ => rfl⟩
    · exact ⟨'r', rfl, by decide, fun _ => rfl⟩
    · exact ⟨'v', rfl, by decide, fun _ => rfl⟩
    · exact ⟨'f', rfl, by decide, fun _ => rfl⟩
    all_goals exact ⟨_, rfl, by decide, escape_self (by decide) rfl⟩
  · have hs : isSpecial c = false := by simpa using hs
    refine Or.inl ⟨?_, hs⟩
    have hb := isBlank_of_not_isSpecial hs
    simp only [Text.isBlank, Bool.or_eq_false_iff] at hb
    simp [escaped, hs, hb]

/-- A text is spelled character by character. -/
theorem spelled_flatMap (cs : List Char) : Spelled cs (cs.flatMap escaped) := by
  induction cs with
  | nil => exact .nil
  | cons c cs ih =>
    rw [List.flatMap_cons]
    rcases escaped_cases c with ⟨he, hc⟩ | ⟨d, he, hd, hc⟩
    · rw [he]
      exact .plain hc ih
    · rw [he]
      exact .escaped hd hc ih

/-- The hash sign at the start is spelled like any other character. -/
theorem spelled_escapedForm (cs : List Char) : Spelled cs (escapedForm cs) := by
  unfold escapedForm
  split
  · rename_i h
    obtain ⟨r, rfl⟩ : ∃ r, cs = '#' :: r := by
      cases cs with
      | nil => simp at h
      | cons c r => exact ⟨r, by simpa using h⟩
    exact .escaped (by decide) (escape_self (by decide) rfl) (spelled_flatMap r)
  · exact spelled_flatMap cs

theorem head?_escapedForm_ne (cs : List Char) : (escapedForm cs).head? ≠ some '#' := by
  unfold escapedForm
  split
  · simp
  · rename_i h
    cases cs with
    | nil => simp
    | cons c r =>
      rcases escaped_cases c with ⟨he, -⟩ | ⟨d, he, -, -⟩
      · simpa [he] using h
      · simp [he]

/-- Characters that are not special spell themselves. -/
theorem spelled_self {cs : List Char} (h : cs.any isSpecial = false) : Spelled cs cs := by
  induction cs with
  | nil => exact .nil
  | cons c cs ih =>
    rw [List.any_cons, Bool.or_eq_false_iff] at h
    exact .plain h.1 (ih h.2)

/-- A spelling starts with no special character but the backslash. -/
theorem Spelled.head_ne {cs ds rest r : List Char} {c d : Char} (h : Spelled cs ds)
    (hne : cs ≠ []) (hds : ds ++ rest = c :: r) (hd : isSpecial d = true) (hb : d ≠ '\\') :
    c ≠ d := by
  cases h with
  | nil => exact absurd rfl hne
  | plain hc h =>
    rw [← (List.cons.inj hds).1]
    exact ne_of_not_isSpecial hc hd
  | escaped hn hc h =>
    rw [← (List.cons.inj hds).1]
    exact hb.symm

/-! ### The element -/

/-- **An element is a text between braces or a spelling.**  A spelling is never
empty and never starts with a hash sign, so that no element is a comment. -/
theorem quote_cases (cs : List Char) :
    (quote cs = '\x7b' :: (cs ++ ['\x7d']) ∧
        ∀ rest, closeBrace 0 (cs ++ '\x7d' :: rest) = some (cs, rest)) ∨
      cs ≠ [] ∧ Spelled cs (quote cs) ∧ (quote cs).head? ≠ some '#' := by
  unfold quote
  split_ifs with he hp hb
  · left
    obtain rfl : cs = [] := by simpa using he
    exact ⟨rfl, closeBrace_append rfl (by simp)⟩
  · right
    exact ⟨by simpa using he, spelled_self (by simpa using hp.2), hp.1⟩
  · left
    exact ⟨rfl, closeBrace_append hb.1 hb.2⟩
  · right
    exact ⟨by simpa using he, spelled_escapedForm cs, head?_escapedForm_ne cs⟩

end Word
end CommandBridge
