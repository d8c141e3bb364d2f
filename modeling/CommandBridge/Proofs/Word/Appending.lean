/-
# Appending elements to a list text

Elements are appended to a text without reading it: a space goes behind it and then
the elements, quoted.  As a rule the text then splits into what it split into before
and the new elements, however it is written (`split_append`): braces and quotes are
closed in it, and the space ends a bare element.

The exception is a text that ends inside of a backslash sequence, with a backslash or
with a backslash and a line feed with blanks (`endsOpen`).  Such a text is a list,
but the space behind it goes on with the sequence, and the first new element goes on
with the last old one (`split_append_ne`).
-/

import CommandBridge.Proofs.Word.Extension
import CommandBridge.Proofs.Word.Splitting
import Mathlib.Data.List.TakeWhile

namespace CommandBridge
namespace Word

/-! ### Texts that end inside of an element -/

/-- Whether what follows a backslash, up to the end, is a sequence that a space
behind it would belong to. -/
def takesSpace : List Char → Bool
  | [] => true
  | '\n' :: r => r.all fun c => c == ' ' || c == '\t'
  | _ => false

/-- Whether a bare element reaches to the end and a space behind it would belong to
it. -/
def bareOpen : List Char → Bool
  | [] => false
  | c :: r =>
    if Text.isBlank c then false
    else if c == '\\' then takesSpace r || bareOpen (escape r).2
    else bareOpen r
termination_by cs => cs.length
decreasing_by
  · exact Nat.lt_succ_of_le (length_escape_le r)
  · simp

/-- Whether a list text ends with such an element. -/
def endsOpen : List Char → Bool
  | [] => false
  | c :: r =>
    if _hc : Text.isBlank c then endsOpen r
    else if c == '\x7b' then
      match _h : closeBrace 0 r with
      | none => false
      | some (_, rest) => endsOpen rest
    else if c == '"' then
      match _h : quoted r with
      | none => false
      | some (_, rest) => endsOpen rest
    else bareOpen (c :: r) || endsOpen (bare (c :: r)).2
termination_by cs => cs.length
decreasing_by
  · simp
  · exact Nat.lt_succ_of_lt (length_lt_of_closeBrace _h)
  · exact Nat.lt_succ_of_lt (length_lt_of_quoted _h)
  · exact length_bare_lt (by simpa using _hc) r

/-- What does not take a space is read as before when one follows. -/
theorem parts_space {r : List Char} (h : takesSpace r = false) (more : List Char) :
    (escape r).2 ≠ [] ∨ Parts r (' ' :: more) := by
  by_cases hn : ∃ t, r = '\n' :: t
  · obtain ⟨t, rfl⟩ := hn
    refine .inl fun he => ?_
    rw [takesSpace, List.all_eq_false] at h
    obtain ⟨c, hc, hp⟩ := h
    exact hp (List.dropWhile_eq_nil_iff.1 he c hc)
  · have hr : r ≠ [] := fun hr => by
      rw [hr] at h
      cases h
    refine .inr ⟨hr, ?_⟩
    rintro c ⟨⟩
    exact ⟨rfl, fun hh => absurd (List.head?_eq_some_iff.1 hh) hn⟩

theorem takesSpace_cases {r : List Char} (h : takesSpace r = true) :
    r = [] ∨ ∃ t, r = '\n' :: t ∧ ∀ c ∈ t, (c == ' ' || c == '\t') = true := by
  unfold takesSpace at h
  split at h
  · exact .inl rfl
  · exact .inr ⟨_, rfl, List.all_eq_true.1 h⟩
  · cases h

/-- A space ends a bare element that is not open. -/
theorem bare_append_space {cs : List Char} (h : bareOpen cs = false) (more : List Char) :
    bare (cs ++ ' ' :: more) = ((bare cs).1, (bare cs).2 ++ ' ' :: more) := by
  fun_induction bareOpen cs with
  | case1 => rw [bare_append .nil rfl, bare]; rfl
  | case2 c r hc => rw [List.cons_append, bare, if_pos hc, bare, if_pos hc]; rfl
  | case3 c r hc hb ih =>
    rw [Bool.or_eq_false_iff] at h
    rw [List.cons_append, bare, if_neg hc, if_pos hb, bare, if_neg hc, if_pos hb,
      escape_append (parts_space h.1 more), ih h.2]
    rfl
  | case4 c r hc hb ih =>
    rw [List.cons_append, bare, if_neg hc, if_neg hb, bare, if_neg hc, if_neg hb, ih h]
    rfl

theorem bare_ne_nil {c : Char} (hc : Text.isBlank c = false) (r : List Char) :
    (bare (c :: r)).1 ≠ [] := by
  rw [bare, hc, if_neg Bool.false_ne_true]
  split <;> exact List.cons_ne_nil _ _

/-- A backslash with a sequence that takes a space is read to the end. -/
theorem bare_takesSpace {r : List Char} (h : takesSpace r = true) :
    bare ('\\' :: r) = ([(escape r).1], []) := by
  have hr : (escape r).2 = [] := by
    rcases takesSpace_cases h with rfl | ⟨t, rfl, ht⟩
    · rfl
    · exact List.dropWhile_eq_nil_iff.2 ht
  rw [bare, hr, bare]
  rfl

/-- With a space and more behind, it is another element: the backslash becomes a
space, or the blanks of the line feed no longer reach to the end. -/
theorem bare_takesSpace_ne {r : List Char} (h : takesSpace r = true) {c : Char}
    (hc : Text.isBlank c = false) (more : List Char) :
    (bare ('\\' :: (r ++ ' ' :: c :: more))).1 ≠ (bare ('\\' :: r)).1 := by
  rw [bare_takesSpace h]
  rcases takesSpace_cases h with rfl | ⟨t, rfl, ht⟩
  · rw [bare, List.nil_append, escape_self (by decide) rfl]
    exact fun he => absurd (List.cons.inj he).1 (by decide : ' ' ≠ '\\')
  · have hdrop : (t ++ ' ' :: c :: more).dropWhile (fun c => c == ' ' || c == '\t') =
        c :: more := by
      simp only [Text.isBlank, Bool.or_eq_false_iff] at hc
      rw [List.dropWhile_append_of_pos ht, List.dropWhile_cons_of_pos rfl,
        List.dropWhile_cons_of_neg (by simp [hc])]
    have hesc : escape ('\n' :: t ++ ' ' :: c :: more) = (' ', c :: more) :=
      congrArg (Prod.mk ' ') hdrop
    rw [bare, hesc]
    exact fun he => bare_ne_nil hc more (List.cons.inj he).2

/-- A space and more behind an open bare element change it. -/
theorem bare_append_space_ne {cs : List Char} (h : bareOpen cs = true) {c : Char}
    (hc : Text.isBlank c = false) (more : List Char) :
    (bare (cs ++ ' ' :: c :: more)).1 ≠ (bare cs).1 := by
  fun_induction bareOpen cs with
  | case1 => cases h
  | case2 => cases h
  | case3 d r hd hb ih =>
    obtain rfl := eq_of_beq hb
    rw [List.cons_append]
    by_cases ht : takesSpace r = true
    · exact bare_takesSpace_ne ht hc more
    · rw [bare, if_neg hd, if_pos hb, bare, if_neg hd, if_pos hb,
        escape_append (parts_space (by simpa using ht) _)]
      exact fun he => ih (by simpa [ht] using h) (List.cons.inj he).2
  | case4 d r hd hb ih =>
    rw [List.cons_append, bare, if_neg hd, if_neg hb, bare, if_neg hd, if_neg hb]
    exact fun he => ih h (List.cons.inj he).2

/-! ### Appending to a list text -/

/-- `Splits cs xs`: the text splits into the elements, one by one. -/
inductive Splits : List Char → List (List Char) → Prop where
  | nil : Splits [] []
  | blank {c : Char} {r : List Char} {xs : List (List Char)} (hc : Text.isBlank c = true)
      (h : Splits r xs) : Splits (c :: r) xs
  | braced {r x rest : List Char} {xs : List (List Char)} (hx : closeBrace 0 r = some (x, rest))
      (hr : atBoundary rest = true) (h : Splits rest xs) : Splits ('\x7b' :: r) (x :: xs)
  | quoted {r x rest : List Char} {xs : List (List Char)} (hx : quoted r = some (x, rest))
      (hr : atBoundary rest = true) (h : Splits rest xs) : Splits ('"' :: r) (x :: xs)
  | bare {c : Char} {r : List Char} {xs : List (List Char)} (hc : Text.isBlank c = false)
      (ho : c ≠ '\x7b') (hq : c ≠ '"') (h : Splits (bare (c :: r)).2 xs) :
      Splits (c :: r) ((bare (c :: r)).1 :: xs)

theorem map_cons_eq_ok {ε α : Type} {e : Except ε (List α)} {x : α} {xs : List α}
    (h : e.map (x :: ·) = .ok xs) : ∃ ys, xs = x :: ys ∧ e = .ok ys := by
  cases e with
  | error => cases h
  | ok ys => cases h; exact ⟨ys, rfl, rfl⟩

theorem splits_of_split {cs : List Char} {xs : List (List Char)} (h : split cs = .ok xs) :
    Splits cs xs := by
  fun_induction split cs generalizing xs with
  | case1 => cases h; exact .nil
  | case2 c r hc ih => exact .blank hc (ih h)
  | case3 => cases h
  | case4 c r hc hb x rest hx hr ih =>
    obtain rfl := eq_of_beq hb
    obtain ⟨ys, rfl, hys⟩ := map_cons_eq_ok h
    exact .braced hx hr (ih hys)
  | case5 => cases h
  | case6 => cases h
  | case7 c r hc hb hq x rest hx hr ih =>
    obtain rfl := eq_of_beq hq
    obtain ⟨ys, rfl, hys⟩ := map_cons_eq_ok h
    exact .quoted hx hr (ih hys)
  | case8 => cases h
  | case9 c r hc hb hq x rest hx ih =>
    obtain ⟨ys, rfl, hys⟩ := map_cons_eq_ok h
    have hs := ih hys
    obtain ⟨rfl, rfl⟩ : x = (bare (c :: r)).1 ∧ rest = (bare (c :: r)).2 := by
      rw [hx]
      exact ⟨rfl, rfl⟩
    exact .bare (by simpa using hc) (by simpa using hb) (by simpa using hq) hs

theorem endsOpen_blank {c : Char} (hc : Text.isBlank c = true) (r : List Char) :
    endsOpen (c :: r) = endsOpen r := by
  rw [endsOpen, dif_pos hc]

theorem endsOpen_braced {r x rest : List Char} (h : closeBrace 0 r = some (x, rest)) :
    endsOpen ('\x7b' :: r) = endsOpen rest := by
  rw [endsOpen, dif_neg (by decide), if_pos (beq_self_eq_true _)]
  split
  · rename_i hn
    rw [h] at hn
    cases hn
  · rename_i hs
    rw [h] at hs
    cases hs
    rfl

theorem endsOpen_quoted {r x rest : List Char} (h : quoted r = some (x, rest)) :
    endsOpen ('"' :: r) = endsOpen rest := by
  rw [endsOpen, dif_neg (by decide), if_neg (by decide), if_pos (beq_self_eq_true _)]
  split
  · rename_i hn
    rw [h] at hn
    cases hn
  · rename_i hs
    rw [h] at hs
    cases hs
    rfl

theorem endsOpen_bare {c : Char} (hc : Text.isBlank c = false) (ho : c ≠ '\x7b') (hq : c ≠ '"')
    (r : List Char) : endsOpen (c :: r) = (bareOpen (c :: r) || endsOpen (bare (c :: r)).2) := by
  rw [endsOpen, dif_neg (by simp [hc]), if_neg (by simpa using ho), if_neg (by simpa using hq)]

/-- **What is put behind a list text that is not open is split on its own.** -/
theorem split_append {cs : List Char} {xs : List (List Char)} (h : Splits cs xs)
    (ho : endsOpen cs = false) (more : List Char) :
    split (cs ++ ' ' :: more) = (split more).map (xs ++ ·) := by
  induction h with
  | nil =>
    rw [List.nil_append, split_blank rfl]
    cases split more <;> rfl
  | blank hc h ih =>
    rw [List.cons_append, split_blank hc, ih (endsOpen_blank hc _ ▸ ho)]
  | braced hx hr h ih =>
    rw [List.cons_append, split_braced (closeBrace_extend hx _) (atBoundary_append hr rfl),
      ih (endsOpen_braced hx ▸ ho)]
    cases split more <;> rfl
  | quoted hx hr h ih =>
    rw [List.cons_append, split_quoted (quoted_extend hx _) (atBoundary_append hr rfl),
      ih (endsOpen_quoted hx ▸ ho)]
    cases split more <;> rfl
  | @bare c r xs hc hb hq h ih =>
    rw [endsOpen_bare hc hb hq, Bool.or_eq_false_iff] at ho
    have hs := bare_append_space ho.1 more
    rw [List.cons_append] at hs ⊢
    rw [split_bare hc hb hq hs, ih ho.2]
    cases split more <;> rfl

/-- **An open list text does not stay what it is** when a space and more are put
behind it. -/
theorem split_append_ne {cs : List Char} {xs : List (List Char)} (h : Splits cs xs)
    (ho : endsOpen cs = true) {c : Char} (hc : Text.isBlank c = false) (more : List Char)
    (ys : List (List Char)) : split (cs ++ ' ' :: c :: more) ≠ .ok (xs ++ ys) := by
  induction h with
  | nil =>
    rw [endsOpen] at ho
    cases ho
  | blank hd h ih =>
    rw [List.cons_append, split_blank hd]
    exact ih (endsOpen_blank hd _ ▸ ho)
  | braced hx hr h ih =>
    rw [List.cons_append, split_braced (closeBrace_extend hx _) (atBoundary_append hr rfl)]
    exact fun he => ih (endsOpen_braced hx ▸ ho) (map_cons_eq_ok_iff.1 he).2
  | quoted hx hr h ih =>
    rw [List.cons_append, split_quoted (quoted_extend hx _) (atBoundary_append hr rfl)]
    exact fun he => ih (endsOpen_quoted hx ▸ ho) (map_cons_eq_ok_iff.1 he).2
  | @bare d r xs hd hb hq h ih =>
    rw [endsOpen_bare hd hb hq, Bool.or_eq_true] at ho
    by_cases hopen : bareOpen (d :: r) = true
    · have hne := bare_append_space_ne hopen hc more
      rw [List.cons_append] at hne ⊢
      rw [split_bare hd hb hq rfl]
      exact fun he => hne (map_cons_eq_ok_iff.1 he).1.symm
    · have hs := bare_append_space (Bool.eq_false_iff.2 hopen) (c :: more)
      rw [List.cons_append] at hs ⊢
      rw [split_bare hd hb hq hs]
      exact fun he => ih (ho.resolve_left hopen) (map_cons_eq_ok_iff.1 he).2

/-- Elements put behind a list text are split behind its own, unless the text is
open. -/
theorem split_spaced_iff {cs : List Char} {xs : List (List Char)} (h : split cs = .ok xs)
    (ys : List (List Char)) :
    split (spaced cs (joined ys)) = .ok (xs ++ ys) ↔ ys = [] ∨ endsOpen cs = false := by
  have hs := splits_of_split h
  cases ys with
  | nil =>
    rw [show joined [] = [] from rfl, spaced_nil_right, h, List.append_nil]
    simp
  | cons y ys =>
    obtain ⟨c, r, hj, hc⟩ := exists_joined_eq_cons y ys
    rw [or_iff_right (List.cons_ne_nil _ _)]
    by_cases hcs : cs = []
    · subst hcs
      cases hs
      rw [spaced_nil, split_joined, endsOpen]
      exact iff_of_true rfl rfl
    rw [spaced_of_ne hcs, behind_of_ne (by rw [hj]; exact List.cons_ne_nil _ _)]
    cases ho : endsOpen cs with
    | false =>
      rw [split_append hs ho, split_joined]
      exact iff_of_true rfl rfl
    | true =>
      rw [hj]
      exact iff_of_false (split_append_ne hs ho hc r _) Bool.noConfusion

end Word
end CommandBridge
