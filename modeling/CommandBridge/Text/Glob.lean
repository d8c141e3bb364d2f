/-
# Glob patterns

`*` stands for any run of characters and `?` for any single one; every other
pattern character stands for itself.  The matcher moves through pattern and
text together (`advance`).  When it meets a star it remembers the pattern after
the star and the text from there on; when it is stuck it drops one character of
that remembered text and tries again (`search`).  A later star replaces an
earlier one.  A text character equal to the pattern character is taken before
the pattern character is looked at as a star, so a star that meets a star in
the text consumes it and is spent.
-/

namespace CommandBridge
namespace Glob

/-- Where a comparison of pattern and text came to a halt. -/
inductive Halt where
  /-- The text is used up; the answer is whether only stars remain. -/
  | finished (answer : Bool)
  /-- A star was met: the pattern after it and the text from here on. -/
  | star (pattern text : List Char)
  /-- The next text character fits nothing. -/
  | stuck
deriving DecidableEq, Repr

/-- Compares pattern and text up to the next star, misfit or end of text. -/
def advance : List Char → List Char → Halt
  | p, [] => .finished (p.all (· == '*'))
  | [], _ :: _ => .stuck
  | q :: p, c :: t =>
    if q == '?' || q == c then advance p t
    else if q == '*' then .star p (c :: t)
    else .stuck

theorem length_lt_of_advance_star {p t p' t' : List Char} (h : advance p t = .star p' t') :
    p'.length < p.length := by
  induction p, t using advance.induct with
  | case1 p => cases p <;> simp [advance] at h
  | case2 c t => simp [advance] at h
  | case3 q p c t hq ih =>
    rw [advance, if_pos hq] at h
    exact Nat.lt_succ_of_lt (ih h)
  | case4 q p c t hq hs =>
    rw [advance, if_neg hq, if_pos hs] at h
    cases h
    simp
  | case5 q p c t hq hs =>
    rw [advance, if_neg hq, if_neg hs] at h
    cases h

/-- Tries the pattern after a star at every end piece of the text, longest
first, and moves on for good when the next star is met. -/
def search (p t : List Char) : Bool :=
  match _h : advance p t with
  | .finished answer => answer
  | .star p' t' => search p' t'
  | .stuck =>
    match t with
    | [] => false
    | _ :: t' => search p t'
termination_by (p.length, t.length)
decreasing_by
  · exact Prod.Lex.left _ _ (length_lt_of_advance_star _h)
  · exact Prod.Lex.right _ (by simp)

/-- Whether the whole text fits the pattern. -/
def matchesChars (p t : List Char) : Bool :=
  match advance p t with
  | .finished answer => answer
  | .star p' t' => search p' t'
  | .stuck => false

/-- Whether the whole text fits the pattern. -/
def fits (pattern text : String) : Bool :=
  matchesChars pattern.toList text.toList

end Glob
end CommandBridge
