/-
# What fits a pattern

A text fits a pattern if it can be cut into pieces, one for each pattern
character in order: a star stands for any piece, a question mark for any piece
of one character, and every other character for itself (`Cut`).

The matcher remembers one star only, the last one that it has met.  Nothing is
lost by that: what an earlier star could have taken more, the later one can take
as well, so it is enough to look at the end pieces of the text that are left
(`Later`).  The three outcomes of a comparison are exact in this sense
(`finished_of_later`, `later_of_star`, `not_taken_of_stuck`), and with them
`search` decides `Later` and `matchesChars` decides what the matcher takes.

What it takes is not quite `Cut`, because it compares a star with the text before
it looks at it as a star.  A star that meets a star in the text takes this one
character and no other (`Taken`).  So whatever is taken can be cut, and what can
be cut is taken if there are no stars in the pattern or none in the text
(`fits_iff`); but the pattern of a single star does not fit every text
(`star_meets_star`).
-/

import CommandBridge.Text.Glob
import Mathlib.Data.List.Forall2

namespace CommandBridge
namespace Glob

/-! ### Cutting a text -/

/-- Whether a pattern character stands for a piece of text. -/
def Covers (q : Char) (piece : List Char) : Prop :=
  q = '*' ∨ q = '?' ∧ piece.length = 1 ∨ piece = [q]

/-- The text can be cut into pieces for which the pattern characters stand in
order. -/
def Cut (p t : List Char) : Prop :=
  ∃ pieces : List (List Char), t = pieces.flatten ∧ List.Forall₂ Covers p pieces

theorem cut_nil : Cut [] [] :=
  ⟨[], rfl, .nil⟩

theorem Cut.cons {q : Char} {u p t : List Char} (hq : Covers q u) (h : Cut p t) :
    Cut (q :: p) (u ++ t) := by
  obtain ⟨pieces, rfl, hp⟩ := h
  exact ⟨u :: pieces, rfl, .cons hq hp⟩

/-! ### What the matcher takes -/

/-- As `Cut`, but a star that meets a star in the text stands for this one
character. -/
inductive Taken : List Char → List Char → Prop
  | nil : Taken [] []
  | one {q c : Char} {p t : List Char} (hq : q = '?' ∨ q = c) (h : Taken p t) :
      Taken (q :: p) (c :: t)
  | run {u p t : List Char} (hu : (u ++ t).head? ≠ some '*') (h : Taken p t) :
      Taken ('*' :: p) (u ++ t)

/-- What is taken can be cut. -/
theorem Taken.cut {p t : List Char} (h : Taken p t) : Cut p t := by
  induction h with
  | nil => exact cut_nil
  | @one q c p t hq h ih =>
    refine Cut.cons (u := [c]) ?_ ih
    rcases hq with rfl | rfl
    · exact .inr (.inl ⟨rfl, rfl⟩)
    · exact .inr (.inr rfl)
  | run hu h ih => exact ih.cons (.inl rfl)

/-- What can be cut is taken, unless a star of the pattern may meet one of the
text. -/
theorem Cut.taken {p t : List Char} (h : Cut p t) (hs : '*' ∉ p ∨ '*' ∉ t) : Taken p t := by
  obtain ⟨pieces, rfl, hp⟩ := h
  induction hp with
  | nil => exact .nil
  | @cons q u p pieces hq hp ih =>
    simp only [List.mem_cons, List.flatten_cons, List.mem_append, not_or] at hs ⊢
    have hrest : Taken p pieces.flatten := ih (hs.imp And.right And.right)
    by_cases hstar : q = '*'
    · subst hstar
      refine .run (fun hu => ?_) hrest
      rcases hs with hs | hs
      · exact hs.1 rfl
      · exact (List.mem_append.1 (List.mem_of_mem_head? hu)).elim hs.1 hs.2
    · rcases hq with rfl | ⟨rfl, hu⟩ | rfl
      · exact absurd rfl hstar
      · obtain ⟨c, rfl⟩ := List.length_eq_one_iff.1 hu
        exact .one (.inl rfl) hrest
      · exact .one (.inr rfl) hrest

/-- A pattern takes the empty text if it consists of stars. -/
theorem taken_nil_iff {p : List Char} : Taken p [] ↔ p.all (· == '*') = true := by
  induction p with
  | nil => exact ⟨fun _ => rfl, fun _ => .nil⟩
  | cons q p ih =>
    rw [List.all_cons, Bool.and_eq_true, beq_iff_eq]
    constructor
    · intro h
      generalize ht : ([] : List Char) = t at h
      cases h with
      | one => cases ht
      | run hu h =>
        obtain ⟨rfl, rfl⟩ := List.append_eq_nil_iff.1 ht.symm
        exact ⟨rfl, ih.1 h⟩
    · rintro ⟨rfl, h⟩
      exact .run (u := []) (by simp) (ih.2 h)

/-- A pattern character that is equal to the text character takes it, be it a
star or not. -/
theorem taken_cons_iff {q c : Char} {p t : List Char} (hq : q = '?' ∨ q = c) :
    Taken (q :: p) (c :: t) ↔ Taken p t := by
  refine ⟨fun h => ?_, .one hq⟩
  generalize ht : c :: t = t' at h
  cases h with
  | one _ h =>
    obtain ⟨-, rfl⟩ := List.cons.inj ht
    exact h
  | run hu h =>
    obtain rfl : '*' = c := hq.resolve_left (by decide)
    exact absurd (by rw [← ht]; rfl) hu

/-! ### One comparison -/

/-- The pattern takes some end piece of the text. -/
def Later (p t : List Char) : Prop :=
  ∃ t', t' <:+ t ∧ Taken p t'

theorem Taken.later {p t : List Char} (h : Taken p t) : Later p t :=
  ⟨t, List.suffix_refl t, h⟩

theorem Later.cons {p t : List Char} (h : Later p t) (c : Char) : Later p (c :: t) := by
  obtain ⟨t', ht, h⟩ := h
  exact ⟨t', ht.trans (List.suffix_cons c t), h⟩

theorem later_cons_iff {p t : List Char} {c : Char} :
    Later p (c :: t) ↔ Taken p (c :: t) ∨ Later p t := by
  constructor
  · rintro ⟨t', ht, h⟩
    rcases List.suffix_cons_iff.1 ht with rfl | ht
    · exact .inl h
    · exact .inr ⟨t', ht, h⟩
  · rintro (h | h)
    · exact h.later
    · exact h.cons c

/-- Whatever the first pattern character takes, the other ones take an end piece
of what is left. -/
theorem Later.tail {q : Char} {p t : List Char} (h : Later (q :: p) t) : Later p t := by
  obtain ⟨t', ht, h⟩ := h
  cases h with
  | one _ h => exact ⟨_, (List.suffix_cons _ _).trans ht, h⟩
  | run _ h => exact ⟨_, (List.suffix_append _ _).trans ht, h⟩

/-- As before, if the first pattern character takes at least one character. -/
theorem Later.of_cons {q c : Char} {p t : List Char} (hq : q = '?' ∨ q = c)
    (h : Later (q :: p) (c :: t)) : Later p t := by
  rcases later_cons_iff.1 h with h | h
  · exact ((taken_cons_iff hq).1 h).later
  · exact h.tail

theorem matched_iff {q c : Char} : (q == '?' || q == c) = true ↔ q = '?' ∨ q = c := by
  rw [Bool.or_eq_true, beq_iff_eq, beq_iff_eq]

/-- A comparison that has used the text up is right, and no later start of it
would have given another answer. -/
theorem finished_of_later {p t : List Char} {answer : Bool} (h : advance p t = .finished answer) :
    (answer = true → Taken p t) ∧ (Later p t → answer = true) := by
  induction p, t using advance.induct with
  | case1 p =>
    rw [advance] at h
    obtain rfl := Halt.finished.inj h
    refine ⟨taken_nil_iff.2, ?_⟩
    rintro ⟨t', ht, h⟩
    obtain rfl := List.suffix_nil.1 ht
    exact taken_nil_iff.1 h
  | case2 => cases h
  | case3 q p c t hq ih =>
    rw [advance, if_pos hq] at h
    have hq := matched_iff.1 hq
    exact ⟨fun ha => .one hq ((ih h).1 ha), fun hl => (ih h).2 (hl.of_cons hq)⟩
  | case4 q p c t hq hs =>
    rw [advance, if_neg hq, if_pos hs] at h
    cases h
  | case5 q p c t hq hs =>
    rw [advance, if_neg hq, if_neg hs] at h
    cases h

/-- **A star takes over from the one before.**  If the pattern takes the text
from here or from a later place on, then the pattern behind the star takes an
end piece of what is left at the star; and from such an end piece on the star
takes whatever is in front. -/
theorem later_of_star {p t p' t' : List Char} (h : advance p t = .star p' t') :
    (Later p' t' → Taken p t) ∧ (Later p t → Later p' t') := by
  induction p, t using advance.induct with
  | case1 =>
    rw [advance] at h
    cases h
  | case2 => cases h
  | case3 q p c t hq ih =>
    rw [advance, if_pos hq] at h
    have hq := matched_iff.1 hq
    exact ⟨fun hl => .one hq ((ih h).1 hl), fun hl => (ih h).2 (hl.of_cons hq)⟩
  | case4 q p c t hq hs =>
    rw [advance, if_neg hq, if_pos hs] at h
    obtain ⟨rfl, rfl⟩ := Halt.star.inj h
    obtain rfl := eq_of_beq hs
    refine ⟨?_, Later.tail⟩
    rintro ⟨t', ⟨u, hu⟩, ht⟩
    rw [← hu]
    refine .run (fun hstar => ?_) ht
    rw [hu] at hstar
    exact hq (matched_iff.2 (.inr (Option.some.inj hstar).symm))
  | case5 q p c t hq hs =>
    rw [advance, if_neg hq, if_neg hs] at h
    cases h

theorem not_taken_of_stuck {p t : List Char} (h : advance p t = .stuck) : ¬ Taken p t := by
  induction p, t using advance.induct with
  | case1 =>
    rw [advance] at h
    cases h
  | case2 =>
    intro ht
    cases ht
  | case3 q p c t hq ih =>
    rw [advance, if_pos hq] at h
    rw [taken_cons_iff (matched_iff.1 hq)]
    exact ih h
  | case4 q p c t hq hs =>
    rw [advance, if_neg hq, if_pos hs] at h
    cases h
  | case5 q p c t hq hs =>
    intro ht
    generalize hct : c :: t = t' at ht
    cases ht with
    | one hq' _ =>
      obtain ⟨rfl, -⟩ := List.cons.inj hct
      exact hq (matched_iff.2 hq')
    | run => exact hs rfl

/-! ### The whole matcher -/

theorem search_val (p t : List Char) : search p t =
    match advance p t with
    | .finished answer => answer
    | .star p' t' => search p' t'
    | .stuck => t.tail?.any (search p ·) := by
  rw [search]
  split <;> rename_i h <;> simp only [h]
  cases t <;> rfl

/-- **After a star it is enough to remember this one.**  The search finds out
whether the pattern behind the star takes some end piece of the text. -/
theorem search_iff (p t : List Char) : search p t = true ↔ Later p t := by
  induction p, t using search.induct with
  | case1 p t answer h =>
    rw [search_val, h]
    exact ⟨fun ha => ((finished_of_later h).1 ha).later, (finished_of_later h).2⟩
  | case2 p t p' t' h ih =>
    rw [search_val, h]
    exact ih.trans ⟨fun hl => ((later_of_star h).1 hl).later, (later_of_star h).2⟩
  | case3 p h =>
    rw [advance] at h
    cases h
  | case4 p c t h ih =>
    rw [search_val, h, later_cons_iff]
    exact ih.trans (or_iff_right (not_taken_of_stuck h)).symm

theorem matchesChars_iff (p t : List Char) : matchesChars p t = true ↔ Taken p t := by
  rw [matchesChars]
  split
  case h_1 answer h => exact ⟨(finished_of_later h).1, fun ht => (finished_of_later h).2 ht.later⟩
  case h_2 p' t' h =>
    rw [search_iff]
    exact ⟨(later_of_star h).1, fun ht => (later_of_star h).2 ht.later⟩
  case h_3 h => exact ⟨nofun, fun ht => absurd ht (not_taken_of_stuck h)⟩

/-- **Which texts fit a pattern**: those that can be cut into pieces for the
pattern characters in such a way that every star which meets a star in the text
takes this one character.  So a text that fits can be cut into such pieces; and
if the pattern has no star or the text has none, every text that can be cut
fits. -/
theorem fits_iff (pattern text : String) :
    (fits pattern text = true ↔ Taken pattern.toList text.toList) ∧
      (fits pattern text = true → Cut pattern.toList text.toList) ∧
      ('*' ∉ pattern.toList ∨ '*' ∉ text.toList →
        (fits pattern text = true ↔ Cut pattern.toList text.toList)) := by
  have hfits : fits pattern text = true ↔ Taken pattern.toList text.toList :=
    matchesChars_iff _ _
  exact ⟨hfits, fun h => (hfits.1 h).cut,
    fun hs => ⟨fun h => (hfits.1 h).cut, fun h => hfits.2 (h.taken hs)⟩⟩

/-- The star has to stand for the first `b` as well, for the text to be used up. -/
theorem fits_iff_one_star : '*' ∉ "abcb".toList ∧ fits "a*b" "abcb" = true :=
  ⟨by decide, ((fits_iff "a*b" "abcb").2.2 (.inr (by decide))).2
    ⟨[['a'], ['b', 'c'], ['b']], rfl,
      .cons (.inr (.inr rfl)) (.cons (.inl rfl) (.cons (.inr (.inr rfl)) .nil))⟩⟩

/-- A star does not stand for every text that starts with a star. -/
theorem star_meets_star :
    fits "*" "*a" = false ∧ Cut "*".toList "*a".toList :=
  ⟨rfl, [['*', 'a']], rfl, .cons (.inl rfl) .nil⟩

end Glob
end CommandBridge
