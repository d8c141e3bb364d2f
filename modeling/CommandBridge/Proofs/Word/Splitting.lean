/-
# Splitting takes a list text apart

The elements of a list text are read one by one: `split` reads one element and
then the text behind it, which starts with a blank or is empty.  With the two
forms of `quote_cases` this is one step for each of two branches of `split`
(`split_quote`), and an induction over the list (`split_joined`).

Two texts with a space between them (`spaced`) are the text of two lists put
together if they are texts of lists (`joined_append`); and whatever stands behind
the text of a list is split as if it stood alone (`split_spaced_joined`).
-/

import CommandBridge.Proofs.Word.Quoting
import CommandBridge.Word.Split

namespace CommandBridge
namespace Word

/-- **A spelling is read as what it spells**, up to the blank or the end behind it. -/
theorem bare_append {cs ds rest : List Char} (h : Spelled cs ds) (hr : atBoundary rest = true) :
    bare (ds ++ rest) = (cs, rest) := by
  induction h with
  | nil =>
    cases rest with
    | nil => rw [List.nil_append, bare]
    | cons c r =>
      have hc : Text.isBlank c = true := by simpa [atBoundary] using hr
      rw [List.nil_append, bare, if_pos hc]
  | @plain c cs ds hc h ih =>
    have hs : (c == '\\') = false := beq_false_of_ne (ne_of_not_isSpecial hc rfl)
    rw [List.cons_append, bare, isBlank_of_not_isSpecial hc, hs, ih]
    rfl
  | @escaped c d cs ds hd hc h ih =>
    rw [List.cons_append, List.cons_append, bare, hc, ih]
    rfl

theorem bare_cons {c : Char} (hb : Text.isBlank c = false) (hs : c ≠ '\\') (r : List Char) :
    bare (c :: r) = (c :: (bare r).1, (bare r).2) := by
  rw [bare, hb, if_neg Bool.false_ne_true, if_neg (by simpa using hs)]
  rfl

theorem bare_backslash (r : List Char) :
    bare ('\\' :: r) = ((escape r).1 :: (bare (escape r).2).1, (bare (escape r).2).2) := by
  rw [bare]
  rfl

theorem split_blank {c : Char} (h : Text.isBlank c = true) (r : List Char) :
    split (c :: r) = split r := by
  rw [split, dif_pos h]

theorem split_braced {r text rest : List Char} (h : closeBrace 0 r = some (text, rest))
    (hr : atBoundary rest = true) : split ('\x7b' :: r) = (split rest).map (text :: ·) := by
  rw [split, dif_neg (by decide), if_pos (beq_self_eq_true _)]
  split
  · rename_i hn
    rw [h] at hn
    cases hn
  · rename_i t u hs
    rw [h] at hs
    cases hs
    rw [if_pos hr]

theorem split_quoted {r text rest : List Char} (h : quoted r = some (text, rest))
    (hr : atBoundary rest = true) : split ('"' :: r) = (split rest).map (text :: ·) := by
  rw [split, dif_neg (by decide), if_neg (by decide), if_pos (beq_self_eq_true _)]
  split
  · rename_i hn
    rw [h] at hn
    cases hn
  · rename_i t u hs
    rw [h] at hs
    cases hs
    rw [if_pos hr]

theorem split_bare {c : Char} {r text rest : List Char} (hb : Text.isBlank c = false)
    (ho : c ≠ '\x7b') (hq : c ≠ '"') (h : bare (c :: r) = (text, rest)) :
    split (c :: r) = (split rest).map (text :: ·) := by
  rw [split, dif_neg (by simp [hb]), if_neg (by simpa using ho), if_neg (by simpa using hq)]
  split
  rename_i t u hs
  rw [h] at hs
  cases hs
  rfl

/-- **One element is read off the text.** -/
theorem split_quote (cs : List Char) {rest : List Char} (hr : atBoundary rest = true) :
    split (quote cs ++ rest) = (split rest).map (cs :: ·) := by
  rcases quote_cases cs with ⟨hq, hc⟩ | ⟨hne, hs, -⟩
  · rw [hq, List.cons_append, List.append_assoc]
    exact split_braced (hc rest) hr
  · have hbare := bare_append hs hr
    generalize quote cs = ds at hs hbare ⊢
    cases hs with
    | nil => exact absurd rfl hne
    | @plain c cs ds hc h =>
      exact split_bare (isBlank_of_not_isSpecial hc) (ne_of_not_isSpecial hc rfl)
        (ne_of_not_isSpecial hc rfl) hbare
    | escaped => exact split_bare rfl (by decide) (by decide) hbare

/-! ### The whole list -/

/-- The text behind the first element: nothing, or a space and the other elements. -/
def separated : List (List Char) → List Char
  | [] => []
  | xs => ' ' :: joined xs

theorem joined_cons (x : List Char) (xs : List (List Char)) :
    joined (x :: xs) = quote x ++ separated xs := by
  cases xs with
  | nil => simp [joined, separated]
  | cons y ys => simp [joined, separated, List.intercalate_cons_cons]

theorem atBoundary_separated (xs : List (List Char)) : atBoundary (separated xs) = true := by
  cases xs <;> rfl

theorem split_separated (xs : List (List Char)) : split (separated xs) = split (joined xs) := by
  cases xs with
  | nil => rfl
  | cons x xs => exact split_blank rfl _

/-- **A list text splits into the elements it was made of.** -/
theorem split_joined (xs : List (List Char)) : split (joined xs) = .ok xs := by
  induction xs with
  | nil => rw [joined, List.map_nil, List.intercalate_nil, split]
  | cons x xs ih =>
    rw [joined_cons, split_quote x (atBoundary_separated xs), split_separated, ih]
    rfl

/-- Splitting undoes `listText`. -/
theorem splitText_listText (xs : List String) : splitText (listText xs) = .ok xs := by
  rw [splitText, listText, String.toList_ofList, split_joined]
  simp [Except.map, Function.comp_def]

theorem splitText_eq_ok_iff {s : String} {xs : List String} :
    splitText s = .ok xs ↔ split s.toList = .ok (xs.map String.toList) := by
  rw [splitText]
  cases split s.toList with
  | error e => simp [Except.map]
  | ok ys =>
    simp only [Except.map, Except.ok.injEq]
    constructor
    · rintro rfl
      simp [Function.comp_def]
    · rintro rfl
      simp [Function.comp_def]

/-! ### Texts next to each other -/

/-- What stands behind a text when `r` follows it: nothing, or a space and `r`. -/
def behind : List Char → List Char
  | [] => []
  | r => ' ' :: r

/-- Two texts with a space between them, if neither is empty. -/
def spaced (a b : List Char) : List Char :=
  if a = [] then b else a ++ behind b

theorem spaced_nil (b : List Char) : spaced [] b = b :=
  if_pos rfl

theorem spaced_nil_right (a : List Char) : spaced a [] = a := by
  unfold spaced
  split
  · rename_i h
    exact h.symm
  · exact List.append_nil a

theorem spaced_of_ne {a : List Char} (h : a ≠ []) (b : List Char) : spaced a b = a ++ behind b :=
  if_neg h

theorem behind_of_ne {r : List Char} (h : r ≠ []) : behind r = ' ' :: r := by
  rw [behind]
  exact h

theorem behind_spaced (a b : List Char) : behind (spaced a b) = behind a ++ behind b := by
  cases a with
  | nil => rw [spaced_nil, behind, List.nil_append]
  | cons c a => rw [spaced_of_ne (by simp)]; rfl

theorem spaced_assoc (a b c : List Char) : spaced (spaced a b) c = spaced a (spaced b c) := by
  by_cases ha : a = []
  · rw [ha, spaced_nil, spaced_nil]
  · rw [spaced_of_ne ha, spaced_of_ne ha, spaced_of_ne (by simp [ha]), behind_spaced,
      List.append_assoc]

theorem atBoundary_behind (r : List Char) : atBoundary (behind r) = true := by
  cases r <;> rfl

theorem atBoundary_append {a b : List Char} (ha : atBoundary a = true) (hb : atBoundary b = true) :
    atBoundary (a ++ b) = true := by
  cases a with
  | nil => exact hb
  | cons c a => exact ha

theorem split_behind (r : List Char) : split (behind r) = split r := by
  cases r with
  | nil => rfl
  | cons c r => exact split_blank rfl _

/-- An element starts with no blank. -/
theorem exists_quote_eq_cons (cs : List Char) :
    ∃ c r, quote cs = c :: r ∧ Text.isBlank c = false := by
  rcases quote_cases cs with ⟨hq, -⟩ | ⟨hne, hs, -⟩
  · exact ⟨_, _, hq, rfl⟩
  · generalize quote cs = ds at hs
    cases hs with
    | nil => exact absurd rfl hne
    | plain hc h => exact ⟨_, _, rfl, isBlank_of_not_isSpecial hc⟩
    | escaped hd hc h => exact ⟨_, _, rfl, rfl⟩

theorem quote_ne_nil (cs : List Char) : quote cs ≠ [] := by
  obtain ⟨c, r, h, -⟩ := exists_quote_eq_cons cs
  rw [h]
  exact List.cons_ne_nil _ _

theorem joined_cons_behind (x : List Char) (xs : List (List Char)) :
    joined (x :: xs) = quote x ++ behind (joined xs) := by
  rw [joined_cons]
  cases xs with
  | nil => rfl
  | cons y ys =>
    rw [behind_of_ne]
    · rfl
    · rw [joined_cons]
      simp [quote_ne_nil]

theorem joined_cons_spaced (x : List Char) (xs : List (List Char)) :
    joined (x :: xs) = spaced (quote x) (joined xs) := by
  rw [joined_cons_behind, spaced_of_ne (quote_ne_nil x)]

theorem exists_joined_eq_cons (x : List Char) (xs : List (List Char)) :
    ∃ c r, joined (x :: xs) = c :: r ∧ Text.isBlank c = false := by
  obtain ⟨c, r, h, hc⟩ := exists_quote_eq_cons x
  exact ⟨c, _, by rw [joined_cons_behind, h]; rfl, hc⟩

theorem spaced_quote (cs r s : List Char) :
    spaced (quote cs ++ behind r) s = quote cs ++ behind (spaced r s) := by
  rw [spaced_of_ne (by simp [quote_ne_nil]), behind_spaced, List.append_assoc]

/-- **List texts with spaces between them are the text of the lists put together.** -/
theorem joined_append (xs ys : List (List Char)) :
    joined (xs ++ ys) = spaced (joined xs) (joined ys) := by
  induction xs with
  | nil => exact (spaced_nil _).symm
  | cons x xs ih => rw [List.cons_append, joined_cons_behind, joined_cons_behind, spaced_quote, ih]

theorem map_append_eq_ok_iff {ε α : Type} {e : Except ε (List α)} {xs ys : List α} :
    e.map (xs ++ ·) = .ok (xs ++ ys) ↔ e = .ok ys := by
  cases e <;> simp [Except.map]

theorem map_cons_eq_ok_iff {ε α : Type} {e : Except ε (List α)} {x y : α} {ys : List α} :
    e.map (x :: ·) = .ok (y :: ys) ↔ y = x ∧ e = .ok ys := by
  cases e <;> simp [Except.map, eq_comm]

theorem split_spaced_joined (xs : List (List Char)) (r : List Char) :
    split (spaced (joined xs) r) = (split r).map (xs ++ ·) := by
  induction xs with
  | nil =>
    rw [joined, List.map_nil, List.intercalate_nil, spaced_nil]
    cases split r <;> rfl
  | cons x xs ih =>
    rw [joined_cons_behind, spaced_quote, split_quote x (atBoundary_behind _), split_behind, ih]
    cases split r <;> rfl

end Word
end CommandBridge
