/-
# Concatenating list texts

Concatenation knows no lists.  It trims its texts, leaves out those that are then
empty and puts a space between the others (`concatenated`).  Between list texts a
space is as good as a list: the texts of some lists with spaces between them are
the text of the lists put together (`joined_append`).  So nothing is lost as long
as trimming leaves the list texts as they are.

It does not always do so.  Lists are separated by six blanks only, and trimming
takes all white space: an element may start or end with white space that needs no
quoting in a list (`Text.isWide`), and an element that cannot be put between braces
may end in a space behind a backslash.  Trimming takes these off, so that an
element is cut short, is lost, or grows into the next one.  `splitText_concatText`
says that this is the only way in which a concatenation goes wrong, and that it
always goes wrong then.  The reason is that what is left of a trimmed list text
never reads as an element that starts with wide white space, unless it is one
between braces (`Firm`, `firm_concatenated`): what was cut off does not come back.
-/

import CommandBridge.Builtin.Run
import CommandBridge.Proofs.Value.ListText
import Mathlib.Data.List.DropRight

namespace CommandBridge

namespace Text

/-- White space that does not separate the elements of a list. -/
def isWide (c : Char) : Bool :=
  isSpace c && !isBlank c

theorem isWide_of_isSpace {c : Char} (hs : isSpace c = true) (hb : isBlank c = false) :
    isWide c = true := by
  rw [isWide, hs, hb]
  rfl

theorem isWide_eq_false {c : Char} (hs : isSpace c = false) : isWide c = false := by
  rw [isWide, hs]
  rfl

theorem rdropWhile_append {α : Type} (p : α → Bool) (a b : List α) : (a ++ b).rdropWhile p =
    if b.rdropWhile p = [] then a.rdropWhile p else a ++ b.rdropWhile p := by
  simp only [List.rdropWhile, List.reverse_append, List.dropWhile_append, List.reverse_eq_nil_iff,
    List.isEmpty_iff]
  split
  · rfl
  · rw [List.reverse_append, List.reverse_reverse]

theorem trimChars_cons {c : Char} (h : isSpace c = true) (cs : List Char) :
    trimChars (c :: cs) = trimChars cs := by
  rw [trimChars, List.dropWhile_cons_of_pos h, trimChars]

/-- With a character in front that stays, trimming acts at the end only. -/
theorem trimChars_cons_of_not {c : Char} (h : isSpace c = false) (cs : List Char) :
    trimChars (c :: cs) = c :: cs.rdropWhile isSpace := by
  rw [trimChars, List.dropWhile_cons_of_neg (by simp [h])]
  change (([c] ++ cs).rdropWhile isSpace) = _
  rw [rdropWhile_append]
  split
  · rename_i hn
    rw [hn, List.rdropWhile_singleton, h]
    rfl
  · rfl

end Text

namespace Word

/-! ### The concatenation of texts -/

/-- The trimmed texts that are not empty, with spaces between them. -/
def concatenated (ts : List (List Char)) : List Char :=
  ts.foldr (fun t r => spaced (Text.trimChars t) r) []

/-- A text that is empty is left out, others get a space in front. -/
theorem intercalate_filter (ts : List (List Char)) :
    [' '].intercalate (ts.filter (!·.isEmpty)) = ts.foldr spaced [] := by
  induction ts with
  | nil => rfl
  | cons t ts ih =>
    rw [List.foldr_cons, ← ih, spaced]
    by_cases ht : t = []
    · rw [if_pos ht, List.filter_cons_of_neg (by simp [ht])]
    · rw [if_neg ht, List.filter_cons_of_pos (by simpa using ht)]
      cases hr : ts.filter (!·.isEmpty) with
      | nil => simp [behind]
      | cons u us =>
        have hu : u ≠ [] := by
          have := (List.mem_filter.1 (hr ▸ List.mem_cons_self : u ∈ ts.filter _)).2
          simpa using this
        have hne : [' '].intercalate (u :: us) ≠ [] := by cases us <;> simp [hu]
        rw [List.intercalate_cons_cons, behind_of_ne hne, List.append_assoc]
        rfl

theorem map_toList_filter (ss : List String) : (ss.filter (!·.isEmpty)).map String.toList =
    (ss.map String.toList).filter (!·.isEmpty) := by
  have he (s : String) : s.isEmpty = s.toList.isEmpty := by
    rw [Bool.eq_iff_iff]
    simp
  rw [List.filter_map]
  simp only [Function.comp_def, he]

theorem toList_concatText (vs : List Value) :
    (Builtin.concatText vs).toList = concatenated (vs.map (·.str.toList)) := by
  have hm : (vs.map fun v => Text.trim v.str).map String.toList =
      (vs.map (·.str.toList)).map Text.trimChars := by
    simp [Text.trim]
  have hi := intercalate_filter ((vs.map (·.str.toList)).map Text.trimChars)
  rw [List.foldr_map] at hi
  rw [Builtin.concatText, String.toList_intercalate, map_toList_filter, hm]
  exact hi

/-! ### The characters of an element outside of braces -/

theorem escaped_of_not_isSpecial {c : Char} (h : isSpecial c = false) : escaped c = [c] := by
  have hb := isBlank_of_not_isSpecial h
  simp only [Text.isBlank, Bool.or_eq_false_iff] at hb
  simp [escaped, h, hb]

/-- No white space but the space and the wide one stands in an element outside
of braces, and the space stands behind a backslash. -/
theorem escaped_spaces (c : Char) : (escaped c = [c] ∧ isSpecial c = false) ∨
    ∃ d, escaped c = ['\\', d] ∧ (∀ r, escape (d :: r) = (c, r)) ∧ Text.isWide c = false ∧
      (Text.isSpace d = true → c = ' ') := by
  by_cases hs : isSpecial c = true
  · right
    rcases escaped_cases c with ⟨-, hc⟩ | ⟨d, he, -, hd⟩
    · rw [hs] at hc
      cases hc
    refine ⟨d, he, hd, ?_⟩
    simp only [isSpecial, Text.isBlank, Bool.or_eq_true, beq_iff_eq, or_assoc] at hs
    rcases hs with rfl | rfl | rfl | rfl | rfl | rfl | rfl | rfl | rfl | rfl | rfl | rfl | rfl | rfl
    all_goals
      simp only [escaped, isSpecial, Text.isBlank] at he
      simp at he
      subst he
      decide
  · have hs : isSpecial c = false := by simpa using hs
    exact .inl ⟨escaped_of_not_isSpecial hs, hs⟩

/-- Outside of braces an element stands character by character, with a backslash
in front of a hash sign at its start. -/
theorem quote_flatMap (cs : List Char) : quote cs = '\x7b' :: (cs ++ ['\x7d']) ∨
    quote cs = cs.flatMap escaped ∨
      ∃ r, cs = '#' :: r ∧ quote cs = '\\' :: '#' :: r.flatMap escaped := by
  unfold quote
  split_ifs with he hp hb
  · left
    obtain rfl : cs = [] := by simpa using he
    rfl
  · right; left
    have hs : ∀ c ∈ cs, escaped c = [c] := fun c hc =>
      escaped_of_not_isSpecial (by simpa using List.any_eq_false.1 (by simpa using hp.2) c hc)
    rw [List.flatMap_congr hs]
    simp
  · exact .inl rfl
  · right
    unfold escapedForm
    split_ifs with hh
    · right
      obtain ⟨r, rfl⟩ : ∃ r, cs = '#' :: r := by
        cases cs with
        | nil => simp at hh
        | cons c r => exact ⟨r, by simpa using hh⟩
      exact ⟨r, rfl, rfl⟩
    · exact .inl (List.nil_append _)

/-! ### What trimming leaves at the front -/

/-- A text whose first element does not start with wide white space, but between
braces: neither read as a bare element nor as the element that it is. -/
structure Firm (r : List Char) : Prop where
  bare_head : r ≠ [] → ∃ c, (bare r).1.head? = some c ∧ Text.isWide c = false
  split_head : ∀ {x : List Char} {xs : List (List Char)} {w : Char}, split r = .ok (x :: xs) →
    x.head? = some w → Text.isWide w = true → (quote x).head? ≠ some w

theorem firm_nil : Firm [] where
  bare_head h := absurd rfl h
  split_head h := by
    rw [split] at h
    cases h

theorem firm_of_bare {c d : Char} {r : List Char} (hb : Text.isBlank c = false)
    (ho : c ≠ '\x7b') (hq : c ≠ '"') (hd : (bare (c :: r)).1.head? = some d)
    (hw : Text.isWide d = false) : Firm (c :: r) where
  bare_head _ := ⟨d, hd, hw⟩
  split_head {x xs w} h hx hx' := by
    rw [split_bare hb ho hq rfl] at h
    rw [(map_cons_eq_ok_iff.1 h).1, hd] at hx
    cases hx
    rw [hw] at hx'
    cases hx'

theorem firm_plain {c : Char} (hs : isSpecial c = false) (hc : Text.isSpace c = false)
    (r : List Char) : Firm (c :: r) := by
  refine firm_of_bare (isBlank_of_not_isSpecial hs) (ne_of_not_isSpecial hs rfl)
    (ne_of_not_isSpecial hs rfl) ?_ (Text.isWide_eq_false hc)
  rw [bare_cons (isBlank_of_not_isSpecial hs) (ne_of_not_isSpecial hs rfl)]
  rfl

theorem firm_backslash {r : List Char} (h : Text.isWide (escape r).1 = false) :
    Firm ('\\' :: r) := by
  refine firm_of_bare rfl (by decide) (by decide) ?_ h
  rw [bare_backslash]
  rfl

theorem firm_braced {cs : List Char} (h : quote cs = '\x7b' :: (cs ++ ['\x7d'])) {r : List Char}
    (hr : atBoundary r = true) : Firm (quote cs ++ r) where
  bare_head _ := by
    rw [h, List.cons_append, bare_cons rfl (by decide)]
    exact ⟨_, rfl, rfl⟩
  split_head {x xs w} hs hx hw hq := by
    rw [split_quote cs hr] at hs
    rw [(map_cons_eq_ok_iff.1 hs).1, h] at hq
    cases hq
    cases hw

theorem escape_behind (r : List Char) : (escape (behind r)).1 = if r = [] then '\\' else ' ' := by
  cases r with
  | nil => rfl
  | cons c r => exact congrArg Prod.fst (escape_self (by decide) rfl _)

/-- A backslash whose character is cut off stands for itself or for a space. -/
theorem firm_cut {c d : Char} (hd : ∀ r, escape (d :: r) = (c, r)) (hw : Text.isWide c = false)
    (r s : List Char) :
    Firm (('\\' :: (d :: r).rdropWhile Text.isSpace) ++ behind s) := by
  refine firm_backslash (r := (d :: r).rdropWhile Text.isSpace ++ behind s) ?_
  rcases List.prefix_cons_iff.1 (List.rdropWhile_prefix Text.isSpace (d :: r)) with h | ⟨t, h, -⟩
  · rw [h, List.nil_append, escape_behind]
    split <;> rfl
  · rw [h, List.cons_append, hd]
    exact hw

/-- What is left of the characters of an element starts no element with wide
white space, if the text behind it does not. -/
theorem firm_escaped {r s : List Char} (h : Firm (spaced (Text.trimChars r) s)) (cs : List Char) :
    Firm (spaced (Text.trimChars (cs.flatMap escaped ++ behind r)) s) := by
  induction cs with
  | nil =>
    cases r with
    | nil => exact h
    | cons c r =>
      rw [List.flatMap_nil, List.nil_append, behind, Text.trimChars_cons rfl]
      · exact h
      · simp
  | cons c cs ih =>
    rw [List.flatMap_cons, List.append_assoc]
    rcases escaped_spaces c with ⟨he, hs⟩ | ⟨d, he, hd, hw, -⟩
    · rw [he, List.singleton_append]
      by_cases hc : Text.isSpace c = true
      · rw [Text.trimChars_cons hc]
        exact ih
      · rw [Text.trimChars_cons_of_not (by simpa using hc), spaced_of_ne (by simp)]
        exact firm_plain hs (by simpa using hc) _
    · rw [he, List.cons_append, List.singleton_append, Text.trimChars_cons_of_not rfl,
        spaced_of_ne (by simp)]
      exact firm_cut hd hw _ s

theorem atBoundary_of_isPrefix {a b : List Char} (h : a <+: b) (hb : atBoundary b = true) :
    atBoundary a = true := by
  cases a with
  | nil => rfl
  | cons c a =>
    obtain ⟨t, rfl⟩ := h
    exact hb

/-- A closing brace keeps what stands before it. -/
theorem trimChars_braced {cs : List Char} (h : quote cs = '\x7b' :: (cs ++ ['\x7d']))
    (r : List Char) :
    Text.trimChars (quote cs ++ r) = quote cs ++ r.rdropWhile Text.isSpace := by
  rw [h, List.cons_append, Text.trimChars_cons_of_not rfl, Text.rdropWhile_append]
  split
  · rename_i hr
    rw [hr, List.rdropWhile_concat_neg, List.append_nil]
    decide
  · rfl

/-- **A trimmed list text starts no element with wide white space**, but one
between braces. -/
theorem firm_spaced (xs : List (List Char)) {s : List Char} (hs : Firm s) :
    Firm (spaced (Text.trimChars (joined xs)) s) := by
  induction xs with
  | nil => exact hs
  | cons x xs ih =>
    rw [joined_cons_behind]
    rcases quote_flatMap x with h | h | ⟨t, -, h⟩
    · rw [trimChars_braced h, spaced_of_ne (by simp [quote_ne_nil]), List.append_assoc]
      exact firm_braced h (atBoundary_append
        (atBoundary_of_isPrefix (List.rdropWhile_prefix _ _) (atBoundary_behind _))
        (atBoundary_behind _))
    · rw [h]
      exact firm_escaped ih x
    · rw [h, List.cons_append, List.cons_append, Text.trimChars_cons_of_not rfl,
        spaced_of_ne (by simp)]
      exact firm_cut (escape_self (by decide) rfl) (by decide) _ s

theorem firm_concatenated (Ls : List (List (List Char))) :
    Firm (concatenated (Ls.map joined)) := by
  induction Ls with
  | nil => exact firm_nil
  | cons xs Ls ih => exact firm_spaced xs ih

/-! ### What trimming takes off -/

theorem head?_quote_flatMap {cs : List Char} {c : Char} (h : (cs.flatMap escaped).head? = some c) :
    c = '\\' ∨ isSpecial c = false ∧ cs.head? = some c := by
  cases cs with
  | nil => cases h
  | cons d cs =>
    rcases escaped_spaces d with ⟨he, hs⟩ | ⟨e, he, -⟩
    · rw [List.flatMap_cons, he] at h
      cases h
      exact .inr ⟨hs, rfl⟩
    · rw [List.flatMap_cons, he] at h
      cases h
      exact .inl rfl

/-- An element that is written with white space in front starts with it, and it
is wide. -/
theorem head?_of_quote_isSpace {cs : List Char} {c : Char} (h : (quote cs).head? = some c)
    (hc : Text.isSpace c = true) : cs.head? = some c ∧ Text.isWide c = true := by
  rcases quote_flatMap cs with hq | hq | ⟨t, -, hq⟩
  · rw [hq] at h
    cases h
    cases hc
  · rw [hq] at h
    rcases head?_quote_flatMap h with rfl | ⟨hs, hd⟩
    · cases hc
    · exact ⟨hd, Text.isWide_of_isSpace hc (isBlank_of_not_isSpecial hs)⟩
  · rw [hq] at h
    cases h
    cases hc

theorem head?_append_of_ne {a : List Char} (h : a ≠ []) (b : List Char) :
    (a ++ b).head? = a.head? := by
  cases a with
  | nil => exact absurd rfl h
  | cons => rfl

/-- No firm text starts with the elements of a list whose text starts with white
space. -/
theorem Firm.split_ne {s : List Char} (hs : Firm s) {xs : List (List Char)} {c : Char}
    (hx : (joined xs).head? = some c) (hc : Text.isSpace c = true) (ys : List (List Char)) :
    split s ≠ .ok (xs ++ ys) := by
  intro h
  cases xs with
  | nil => cases hx
  | cons x xs =>
    rw [joined_cons_behind, head?_append_of_ne (quote_ne_nil x)] at hx
    obtain ⟨hd, hw⟩ := head?_of_quote_isSpace hx hc
    exact hs.split_head h hd hw hx

theorem bare_behind (s : List Char) : (bare (behind s)).1 = [] := by
  rw [← List.nil_append (behind s), bare_append .nil (atBoundary_behind s)]

/-- The characters of an element without white space from its end are not read as
the element, whatever firm text follows.  A space is what could come back: it is
cut off behind its backslash, which then takes the space in front of the text. -/
theorem bare_cut_ne {s : List Char} (hs : Firm s) {cs v t : List Char}
    (hc : cs.flatMap escaped = v ++ t) (ht : t ≠ []) (hw : ∀ c ∈ t, Text.isSpace c = true) :
    (bare (v ++ behind s)).1 ≠ cs := by
  induction cs generalizing v with
  | nil =>
    rw [List.flatMap_nil, List.nil_eq_append_iff] at hc
    exact absurd hc.2 ht
  | cons c cs ih =>
    rw [List.flatMap_cons] at hc
    rcases escaped_spaces c with ⟨he, hp⟩ | ⟨d, he, hd, -, hsp⟩
    · rw [he] at hc
      rcases List.cons_eq_append_iff.1 hc with ⟨rfl, -⟩ | ⟨v, rfl, hv⟩
      · rw [List.nil_append, bare_behind]
        exact (List.cons_ne_nil _ _).symm
      · rw [List.cons_append, bare_cons (isBlank_of_not_isSpecial hp) (ne_of_not_isSpecial hp rfl)]
        exact fun h => ih hv (List.cons.inj h).2
    · rw [he] at hc
      rcases List.cons_eq_append_iff.1 hc with ⟨-, rfl⟩ | ⟨v, rfl, hv⟩
      · exact absurd (hw '\\' List.mem_cons_self) (by decide)
      rcases List.cons_eq_append_iff.1 hv with ⟨rfl, rfl⟩ | ⟨v, rfl, hv'⟩
      · -- the backslash is left without the space behind it
        obtain rfl := hsp (hw d List.mem_cons_self)
        rw [List.singleton_append, bare_backslash]
        cases s with
        | nil => exact fun h => absurd (List.cons.inj h).1 (by decide)
        | cons e s =>
          rw [behind_of_ne (by simp), escape_self (by decide) rfl]
          intro h
          obtain ⟨f, hf, hfw⟩ := hs.bare_head (by simp)
          rw [(List.cons.inj h).2] at hf
          cases cs with
          | nil => cases hf
          | cons g cs =>
            cases hf
            rcases escaped_spaces f with ⟨hg, hgs⟩ | ⟨_, hg, -⟩
            · have := hw f (by simp [hg])
              rw [Text.isWide_of_isSpace this (isBlank_of_not_isSpecial hgs)] at hfw
              cases hfw
            · exact absurd (hw '\\' (by simp [hg])) (by decide)
      · rw [List.cons_append, List.cons_append, bare_backslash, hd]
        exact fun h => ih hv' (List.cons.inj h).2

theorem getLast?_cut {a v t : List Char} {c : Char} (h : a ++ [c] = v ++ t) (ht : t ≠ []) :
    c ∈ t := by
  have hl := congrArg List.getLast? h
  rw [List.getLast?_append_of_ne_nil _ ht, List.getLast?_concat] at hl
  exact List.mem_of_getLast? hl.symm

/-- An element without white space from its end is not read as the element. -/
theorem split_cut_ne {s : List Char} (hs : Firm s) {cs v t : List Char}
    (hc : quote cs = v ++ t) (hv : v ≠ []) (ht : t ≠ []) (hw : ∀ c ∈ t, Text.isSpace c = true)
    (ys : List (List Char)) : split (v ++ behind s) ≠ .ok (cs :: ys) := by
  have hbare {c : Char} {v' : List Char} (hv' : v = c :: v') (hb : Text.isBlank c = false)
      (ho : c ≠ '\x7b') (hq : c ≠ '"') (hne : (bare (v ++ behind s)).1 ≠ cs) :
      split (v ++ behind s) ≠ .ok (cs :: ys) := by
    rw [hv', List.cons_append] at hne ⊢
    rw [split_bare hb ho hq rfl]
    exact fun h => hne (map_cons_eq_ok_iff.1 h).1.symm
  rcases quote_flatMap cs with hq | hq | ⟨r, rfl, hq⟩
  · rw [hq, ← List.cons_append] at hc
    exact absurd (hw _ (getLast?_cut hc ht)) (by decide)
  · rw [hq] at hc
    obtain ⟨c, v, rfl⟩ := List.exists_cons_of_ne_nil hv
    have hh : (cs.flatMap escaped).head? = some c := by rw [hc]; rfl
    rcases head?_quote_flatMap hh with rfl | ⟨hp, -⟩
    · exact hbare rfl rfl (by decide) (by decide) (bare_cut_ne hs hc ht hw)
    · exact hbare rfl (isBlank_of_not_isSpecial hp) (ne_of_not_isSpecial hp rfl)
        (ne_of_not_isSpecial hp rfl) (bare_cut_ne hs hc ht hw)
  · rw [hq] at hc
    rcases List.cons_eq_append_iff.1 hc with ⟨rfl, -⟩ | ⟨v, rfl, hc'⟩
    · exact absurd rfl hv
    rcases List.cons_eq_append_iff.1 hc' with ⟨-, rfl⟩ | ⟨v, rfl, hc''⟩
    · exact absurd (hw '#' List.mem_cons_self) (by decide)
    · refine hbare rfl rfl (by decide) (by decide) ?_
      rw [List.cons_append, List.cons_append, bare_backslash, escape_self (by decide) rfl]
      exact fun h => bare_cut_ne hs hc'' ht hw (List.cons.inj h).2

/-- A list text without white space from its end is not read as the list.  The
elements that are whole are read, so it comes down to what is left of the first
one that is not, or to what stands behind the last one. -/
theorem split_rdropWhile_ne {s : List Char} (hs : Firm s) {xs : List (List Char)}
    (hne : (joined xs).rdropWhile Text.isSpace ≠ [])
    (hcut : (joined xs).rdropWhile Text.isSpace ≠ joined xs) (ys : List (List Char)) :
    split ((joined xs).rdropWhile Text.isSpace ++ behind s) ≠ .ok (xs ++ ys) := by
  induction xs with
  | nil => exact absurd rfl hne
  | cons x xs ih =>
    rw [joined_cons_behind, Text.rdropWhile_append] at hne hcut ⊢
    by_cases hb : (behind (joined xs)).rdropWhile Text.isSpace = []
    · rw [if_pos hb] at hne hcut ⊢
      by_cases hq : (quote x).rdropWhile Text.isSpace = quote x
      · rw [hq, split_quote x (atBoundary_behind s), split_behind]
        cases hj : joined xs with
        | nil =>
          rw [hq, hj, behind, List.append_nil] at hcut
          exact absurd rfl hcut
        | cons c r =>
          rw [hj, behind_of_ne (by simp), List.rdropWhile_eq_nil_iff] at hb
          have hxs := hs.split_ne (by rw [hj]; rfl) (hb c (by simp)) ys
          exact fun h => hxs (map_cons_eq_ok_iff.1 h).2
      · have happ : (quote x).rdropWhile Text.isSpace ++ _ = quote x :=
          List.rdropWhile_append_rtakeWhile
        refine split_cut_ne hs happ.symm hne (fun ht => hq ?_)
          (fun c hc => List.mem_rtakeWhile_imp hc) _
        rw [ht, List.append_nil] at happ
        exact happ
    · rw [if_neg hb] at hcut ⊢
      have hj : joined xs ≠ [] := by
        intro hj
        rw [hj] at hb
        exact hb rfl
      rw [behind_of_ne hj] at hb hcut ⊢
      have hr : (joined xs).rdropWhile Text.isSpace ≠ [] := by
        intro hr
        rw [← List.singleton_append, Text.rdropWhile_append, if_pos hr] at hb
        exact hb rfl
      rw [← List.singleton_append, Text.rdropWhile_append, if_neg hr] at hcut ⊢
      rw [List.append_assoc, split_quote x rfl, List.append_assoc, List.singleton_append,
        split_blank rfl]
      refine fun h => ih hr (fun hx => hcut ?_) (map_cons_eq_ok_iff.1 h).2
      rw [hx]

/-- **Trimming a list text shows**: with a text behind that is itself what
trimming left, it splits into the elements of the list and more only if trimming
left it as it was. -/
theorem split_spaced_trimChars_iff {s : List Char} (hs : Firm s) (xs ys : List (List Char)) :
    split (spaced (Text.trimChars (joined xs)) s) = .ok (xs ++ ys) ↔
      Text.trimChars (joined xs) = joined xs ∧ split s = .ok ys := by
  constructor
  · intro h
    have ht : Text.trimChars (joined xs) = joined xs := by
      by_contra ht
      cases hj : joined xs with
      | nil => exact ht (by rw [hj]; rfl)
      | cons c r =>
        by_cases hc : Text.isSpace c = true
        · exact (firm_spaced xs hs).split_ne (by rw [hj]; rfl) hc ys h
        · have hr : Text.trimChars (joined xs) = (joined xs).rdropWhile Text.isSpace := by
            rw [Text.trimChars, hj, List.dropWhile_cons_of_neg hc]
            rfl
          have hne : (joined xs).rdropWhile Text.isSpace ≠ [] := by
            rw [Ne, List.rdropWhile_eq_nil_iff, hj]
            exact fun hall => hc (hall c List.mem_cons_self)
          rw [hr, spaced_of_ne hne] at h
          exact split_rdropWhile_ne hs hne (hr ▸ ht) ys h
    rw [ht, split_spaced_joined] at h
    exact ⟨ht, map_append_eq_ok_iff.1 h⟩
  · rintro ⟨ht, h⟩
    rw [ht, split_spaced_joined, h]
    rfl

theorem split_concatenated_iff (Ls : List (List (List Char))) :
    split (concatenated (Ls.map joined)) = .ok Ls.flatten ↔
      ∀ xs ∈ Ls, Text.trimChars (joined xs) = joined xs := by
  induction Ls with
  | nil =>
    rw [List.map_nil, concatenated, List.foldr_nil, split]
    simp
  | cons xs Ls ih =>
    rw [List.forall_mem_cons, ← ih, List.flatten_cons]
    exact split_spaced_trimChars_iff (firm_concatenated Ls) xs Ls.flatten

end Word

namespace Builtin

/-- **Concatenated lists are one list, as long as trimming leaves their texts as
they are.**  `concat` answers with the concatenated texts of its lists, `eval` with
more than one argument evaluates them, and they split into the elements of all the
lists in order exactly if no list text starts or ends in white space. -/
theorem concatText_lists (i : Nat) (command : Value) (Ls : List (List String)) :
    run .concat i (command :: Ls.map fun L => .list (L.map .text)) =
        answer i (.text (concatText (Ls.map fun L => .list (L.map .text)))) ∧
      (2 ≤ Ls.length → run .eval i (command :: Ls.map fun L => .list (L.map .text)) =
        Program.eval i (concatText (Ls.map fun L => .list (L.map .text)))) ∧
      (Word.splitText (concatText (Ls.map fun L => .list (L.map .text))) = .ok Ls.flatten ↔
        ∀ L ∈ Ls, Text.trim (Word.listText L) = Word.listText L) := by
  refine ⟨rfl, fun h => ?_, ?_⟩
  · match Ls, h with
    | L :: M :: Ls, _ => rfl
  · have hs : (Ls.map fun L => Value.list (L.map .text)).map (·.str.toList) =
        (Ls.map (·.map String.toList)).map Word.joined := by
      simp [Value.str_list_text, Word.listText]
    have hf : Ls.flatten.map String.toList = (Ls.map (·.map String.toList)).flatten :=
      List.map_flatten
    rw [Word.splitText_eq_ok_iff, Word.toList_concatText, hs, hf, Word.split_concatenated_iff]
    simp [Text.trim, Word.listText, String.ofList_inj]

/-- Trimming takes the space of an element that ends in one behind a backslash,
which then protects the space in front of the next list; and an element of wide
white space is lost. -/
theorem concatText_not_lists :
    Word.splitText (concatText ([["\x7b "], ["b"]].map fun L => .list (L.map .text))) =
        .ok ["\x7b b"] ∧
      Word.splitText (concatText ([["\u00a0"], ["b"]].map fun L => .list (L.map .text))) =
        .ok ["b"] := by
  constructor
  · exact Word.splitText_listText ["\x7b b"]
  · exact Word.splitText_listText ["b"]

end Builtin
end CommandBridge
