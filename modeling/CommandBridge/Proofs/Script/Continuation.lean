/-
# Reading on behind a script

A script that does not end in a backslash is read alike whether a line feed and more
text stand behind it or not.  Wherever its readers stop at the end of the text, they
stop at the line feed too: it ends words, commands and comments, it is no part of a
name, and it goes on with no backslash sequence that is not the backslash alone.  The
readers that would not stop there, inside of quotes, brackets, braces and keys, have
found a broken rule without it.  So a tree in which nothing is broken (`Script.intact`)
is read again, and the tree of the text behind follows it (`readScript_append`).
-/

import CommandBridge.Proofs.Script.Reading
import CommandBridge.Proofs.Word.Extension

namespace CommandBridge

/-! ### Trees without broken rules -/

mutual

/-- Whether no rule is broken in a script. -/
def Script.intact : Script → Bool
  | .done => true
  | .fail _ => false
  | .command words rest => words.intact && rest.intact

/-- Whether no rule is broken in the words of a command. -/
def Words.intact : Words → Bool
  | .done => true
  | .fail _ => false
  | .literal _ rest => rest.intact
  | .word pieces rest => pieces.intact && rest.intact

/-- Whether no rule is broken in the pieces of a word. -/
def Pieces.intact : Pieces → Bool
  | .done => true
  | .cons piece rest => piece.intact && rest.intact

/-- Whether no rule is broken in a piece. -/
def Piece.intact : Piece → Bool
  | .fail _ => false
  | .char _ => true
  | .var _ => true
  | .elem _ key => key.intact
  | .script script => script.intact

end

theorem Script.intact_command_iff {words : Words} {rest : Script} :
    (Script.command words rest).intact = true ↔ words.intact = true ∧ rest.intact = true := by
  rw [Script.intact, Bool.and_eq_true]

theorem Words.intact_word_iff {pieces : Pieces} {rest : Words} :
    (Words.word pieces rest).intact = true ↔ pieces.intact = true ∧ rest.intact = true := by
  rw [Words.intact, Bool.and_eq_true]

theorem Pieces.intact_cons_iff {piece : Piece} {rest : Pieces} :
    (Pieces.cons piece rest).intact = true ↔ piece.intact = true ∧ rest.intact = true := by
  rw [Pieces.intact, Bool.and_eq_true]

/-- The commands of one script and then those of another one. -/
def Script.append : Script → Script → Script
  | .done, t => t
  | .fail e, _ => .fail e
  | .command words rest, t => .command words (rest.append t)

namespace Script

/-! ### Texts that do not end in a backslash -/

/-- The text does not end in a backslash. -/
def Ends (cs : List Char) : Prop :=
  cs.getLast? ≠ some '\\'

variable {cs r m : List Char} {c : Char}

theorem ends_nil : Ends [] := by
  intro h
  cases h

theorem Ends.of_suffix (h : Ends cs) (hr : r <:+ cs) : Ends r := by
  cases r with
  | nil => exact ends_nil
  | cons c r =>
    obtain ⟨t, rfl⟩ := hr
    intro hl
    rw [Ends, List.getLast?_append, hl] at h
    exact h rfl

theorem Ends.tail (h : Ends (c :: r)) : Ends r :=
  h.of_suffix (List.suffix_cons c r)

theorem Ends.ne_nil (h : Ends ('\\' :: r)) : r ≠ [] := by
  rintro rfl
  exact h rfl

/-- A backslash sequence at the end of such a text is not gone on with. -/
theorem Ends.escape_append (h : Ends ('\\' :: r)) (m : List Char) :
    Word.escape (r ++ '\n' :: m) =
      ((Word.escape r).1, (Word.escape r).2 ++ '\n' :: m) := by
  refine Word.escape_append (.inr ⟨h.ne_nil, ?_⟩)
  rintro c ⟨⟩
  exact ⟨rfl, fun _ => ⟨by decide, by decide⟩⟩

/-- What is no line feed and starts the text with a line feed behind it starts the text. -/
theorem exists_of_append_newline {r' : List Char} (hc : c ≠ '\n')
    (h : cs ++ '\n' :: m = c :: r') : ∃ r, cs = c :: r ∧ r ++ '\n' :: m = r' := by
  cases cs with
  | nil => exact absurd (List.cons.inj h).1.symm hc
  | cons d r =>
    obtain ⟨rfl, hr⟩ := List.cons.inj h
    exact ⟨r, rfl, hr⟩

/-! ### What is skipped -/

/-- Behind a backslash no line feed comes up that was not there. -/
theorem Ends.not_newline (h : Ends (c :: r)) (hn : ∀ r', c = '\\' → r = '\n' :: r' → False)
    (m : List Char) : ∀ r', c = '\\' → r ++ '\n' :: m = '\n' :: r' → False := by
  rintro r' rfl hr
  cases r with
  | nil => exact h.ne_nil rfl
  | cons d r =>
    obtain ⟨rfl, -⟩ := List.cons.inj hr
    exact hn r rfl rfl

/-- The line feed is skipped with the separators before it. -/
theorem skipSeparators_append (h : Ends cs) (m : List Char) : skipSeparators (cs ++ '\n' :: m) =
    if skipSeparators cs = [] then skipSeparators m else skipSeparators cs ++ '\n' :: m := by
  fun_induction skipSeparators cs with
  | case1 => rfl
  | case2 r ih => exact ih h.tail.tail
  | case3 c r hn hc ih =>
    rw [← ih h.tail, List.cons_append, skipSeparators, if_pos hc]
    exact h.not_newline hn m
  | case4 c r hn hc =>
    rw [if_neg (List.cons_ne_nil _ _), List.cons_append, skipSeparators, if_neg hc]
    exact h.not_newline hn m

/-- The line feed is no blank between words. -/
theorem skipBlanks_append (h : Ends cs) (m : List Char) :
    skipBlanks (cs ++ '\n' :: m) = skipBlanks cs ++ '\n' :: m := by
  fun_induction skipBlanks cs with
  | case1 => rfl
  | case2 r ih => exact ih h.tail.tail
  | case3 c r hn hc ih =>
    rw [← ih h.tail, List.cons_append, skipBlanks, if_pos hc]
    exact h.not_newline hn m
  | case4 c r hn hc =>
    rw [List.cons_append, skipBlanks, if_neg hc]
    exact h.not_newline hn m

/-- A comment ends before the line feed or with it. -/
theorem skipComment_append (h : Ends cs) (m : List Char) :
    skipComment (cs ++ '\n' :: m) = skipComment cs ++ '\n' :: m ∨
      skipComment cs = [] ∧ skipComment (cs ++ '\n' :: m) = m := by
  fun_induction skipComment cs with
  | case1 => exact .inr ⟨rfl, rfl⟩
  | case2 => exact absurd rfl h.ne_nil
  | case3 c r ih => exact ih h.tail.tail
  | case4 r => exact .inl rfl
  | case5 c r hb hbc hn ih =>
    have hc := Word.ne_backslash hb hbc
    rw [List.cons_append, skipComment]
    · exact ih h.tail
    · exact fun hc' => absurd hc' hc
    · exact fun _ _ hc' => absurd hc' hc
    · exact hn

/-! ### Names -/

/-- A name does not go on at a line feed. -/
theorem variableName_append (cs m : List Char) : variableName (cs ++ '\n' :: m) =
    ((variableName cs).1, (variableName cs).2 ++ '\n' :: m) := by
  have hcolon {c : Char} {r : List Char} (hn : ∀ r', c = ':' → r = ':' :: r' → False) :
      ∀ r', c = ':' → r ++ '\n' :: m = ':' :: r' → False := by
    rintro r' rfl hr
    obtain ⟨r, rfl, -⟩ := exists_of_append_newline (by decide) hr
    exact hn r rfl rfl
  fun_induction variableName cs with
  | case1 r ih =>
    rw [List.cons_append, List.cons_append, variableName, ih]
    rfl
  | case2 c r hn hc ih =>
    rw [List.cons_append, variableName, if_pos hc, ih]
    · rfl
    · exact hcolon hn
  | case3 c r hn hc =>
    rw [List.cons_append, variableName, if_neg hc]
    exact hcolon hn
  | case4 =>
    rw [List.nil_append, variableName, if_neg (by decide)]
    exact fun _ hc => absurd hc (by decide)

/-- A closing brace that was found is found again. -/
theorem bracedName?_append {name behind : List Char} (h : bracedName? cs = some (name, behind))
    (m : List Char) : bracedName? (cs ++ m) = some (name, behind ++ m) := by
  fun_induction bracedName? cs generalizing name with
  | case1 => cases h
  | case2 r =>
    cases h
    rw [List.cons_append, bracedName?]
  | case3 c r hc ih =>
    obtain ⟨⟨name, rest⟩, hr, h⟩ := Option.map_eq_some_iff.1 h
    cases h
    rw [List.cons_append, bracedName?, ih hr, Option.map_some]
    exact hc

/-! ### The readers -/

section Readers

variable {α : Type} {x x' : α × List Char}

/-- What is read with a line feed and more behind: the same tree, and the reader stops
where it stopped. -/
def Stops (m : List Char) (x x' : α × List Char) : Prop :=
  x' = (x.1, x.2 ++ '\n' :: m) ∧ Ends x.2

/-- As `Stops`, but a reader that stopped at the end may take the line feed. -/
def Takes (m : List Char) (x x' : α × List Char) : Prop :=
  (x' = (x.1, x.2 ++ '\n' :: m) ∨ x.2 = [] ∧ x' = (x.1, m)) ∧ Ends x.2

/-- What is read becomes part of a larger tree. -/
theorem Takes.map {β : Type} (h : Takes m x x') (f : α → β) :
    Takes m (f x.1, x.2) (f x'.1, x'.2) := by
  obtain ⟨rfl | ⟨hn, rfl⟩, he⟩ := h
  · exact ⟨.inl rfl, he⟩
  · exact ⟨.inr ⟨hn, rfl⟩, he⟩

end Readers

theorem atWordEnd_append (nested : Bool) (cs m : List Char) :
    atWordEnd nested (cs ++ '\n' :: m) = atWordEnd nested cs := by
  cases cs <;> rfl

theorem atBareEnd_append (nested : Bool) (h : Ends cs) (m : List Char) :
    atBareEnd nested (cs ++ '\n' :: m) = atBareEnd nested cs := by
  by_cases hb : ∃ r, cs = '\\' :: '\n' :: r
  · obtain ⟨r, rfl⟩ := hb
    rfl
  · have hcs : atBareEnd nested cs = atWordEnd nested cs := by
      rw [atBareEnd]
      exact fun r hr => hb ⟨r, hr⟩
    have happ : atBareEnd nested (cs ++ '\n' :: m) = atWordEnd nested (cs ++ '\n' :: m) := by
      rw [atBareEnd]
      intro r' hr
      obtain ⟨r, rfl, ht⟩ := exists_of_append_newline (by decide) hr
      exact h.not_newline (fun r'' _ hn => hb ⟨r'', by rw [hn]⟩) m r' rfl ht
    rw [happ, atWordEnd_append, hcs]

/-- The closing bracket is missing at the end. -/
theorem not_intact_nil : (readScript true []).1.1.intact = false := by
  rw [readScript_val]
  rfl

/-- A name between braces. -/
theorem readPiece_stops_braced (m : List Char) (h : Ends r)
    (hi : (readPiece '$' ('\x7b' :: r)).1.1.intact = true) :
    Stops m (readPiece '$' ('\x7b' :: r)).1 (readPiece '$' ('\x7b' :: (r ++ '\n' :: m))).1 := by
  have hv := readPiece_braced r
  have hv' := readPiece_braced (r ++ '\n' :: m)
  cases hn : bracedName? r with
  | none =>
    rw [hn] at hv
    rw [hv] at hi
    cases hi
  | some p =>
    obtain ⟨name, behind⟩ := p
    rw [hn] at hv
    rw [bracedName?_append hn] at hv'
    rw [hv, hv']
    exact ⟨rfl, h.of_suffix (bracedName?_suffix hn)⟩

mutual

/-- A script in brackets is read to its closing bracket. -/
theorem readScript_stops (cs m : List Char) (h : Ends cs)
    (hi : (readScript true cs).1.1.intact = true) :
    Stops m (readScript true cs).1 (readScript true (cs ++ '\n' :: m)).1 := by
  have hv := readScript_val true cs
  have hv' := readScript_val true (cs ++ '\n' :: m)
  have hskip := skipSeparators_append h m
  have hends := h.of_suffix (skipSeparators_suffix cs)
  cases hs : skipSeparators cs with
  | nil =>
    rw [hs] at hv
    rw [hv] at hi
    cases hi
  | cons c r =>
    have hr := length_lt_of_skipSeparators hs
    rw [hs] at hv hskip hends
    rw [if_neg (List.cons_ne_nil _ _), List.cons_append] at hskip
    rw [hskip] at hv'
    dsimp only at hv hv'
    split_ifs at hv hv' with hb hc
    · rw [hv, hv']
      exact ⟨rfl, hends.tail⟩
    · have hc := length_skipComment_le r
      rw [hv] at hi ⊢
      rw [hv']
      rcases skipComment_append hends.tail m with he | ⟨hn, -⟩
      · rw [he]
        exact readScript_stops _ m (hends.tail.of_suffix (skipComment_suffix r)) hi
      · rw [hn, not_intact_nil] at hi
        cases hi
    · have hw := (readCommand true c r).2
      rw [hv] at hi ⊢
      rw [hv']
      rw [Script.intact_command_iff] at hi
      obtain ⟨he | ⟨hn, -⟩, hbehind⟩ := readCommand_takes true c r m hends hi.1
      · obtain ⟨hrest, hends'⟩ := readScript_stops _ m hbehind hi.2
        rw [he, hrest]
        exact ⟨rfl, hends'⟩
      · rw [hn, not_intact_nil] at hi
        cases hi.2
termination_by 6 * cs.length + 5
decreasing_by all_goals omega

theorem readWords_takes (nested : Bool) (cs m : List Char) (h : Ends cs)
    (hi : (readWords nested cs).1.1.intact = true) :
    Takes m (readWords nested cs).1 (readWords nested (cs ++ '\n' :: m)).1 := by
  have hv := readWords_val nested cs
  have hv' := readWords_val nested (cs ++ '\n' :: m)
  have hends := h.of_suffix (skipBlanks_suffix cs)
  rw [skipBlanks_append h m] at hv'
  cases hs : skipBlanks cs with
  | nil =>
    rw [hs] at hv hv'
    rw [hv, hv']
    exact ⟨.inr ⟨rfl, rfl⟩, ends_nil⟩
  | cons c r =>
    have hr := length_lt_of_skipBlanks hs
    rw [hs] at hv hv' hends
    rw [List.cons_append] at hv'
    dsimp only at hv hv'
    split_ifs at hv hv' with hb hc
    · rw [hv, hv']
      exact ⟨.inl rfl, hends.tail⟩
    · rw [hv, hv']
      exact ⟨.inl rfl, hends⟩
    · rw [hv] at hi ⊢
      rw [hv']
      exact readCommand_takes nested c r m hends hi
termination_by 6 * cs.length + 4
decreasing_by all_goals omega

/-- A word between braces. -/
theorem readCommand_takes_braced (nested : Bool) (r m : List Char) (h : Ends r)
    (hi : (readCommand nested '\x7b' r).1.1.intact = true) :
    Takes m (readCommand nested '\x7b' r).1 (readCommand nested '\x7b' (r ++ '\n' :: m)).1 := by
  have hv := readCommand_val nested '\x7b' r
  have hv' := readCommand_val nested '\x7b' (r ++ '\n' :: m)
  rw [if_pos (beq_self_eq_true _)] at hv hv'
  cases hc : Word.closeBrace 0 r with
  | none =>
    rw [hc] at hv
    rw [hv] at hi
    cases hi
  | some p =>
    obtain ⟨text, behind⟩ := p
    have hl := Word.length_lt_of_closeBrace hc
    have hends : Ends behind := h.of_suffix (Word.closeBrace_suffix hc)
    rw [hc] at hv
    rw [Word.closeBrace_extend hc] at hv'
    dsimp only at hv hv'
    rw [atWordEnd_append] at hv'
    split_ifs at hv hv' with he
    · rw [hv] at hi ⊢
      rw [hv']
      exact (readWords_takes nested behind m hends hi).map _
    · rw [hv] at hi
      cases hi
termination_by 6 * (r.length + 1) + 2
decreasing_by all_goals omega

/-- A word between quotes. -/
theorem readCommand_takes_quoted (nested : Bool) (r m : List Char) (h : Ends r)
    (hi : (readCommand nested '"' r).1.1.intact = true) :
    Takes m (readCommand nested '"' r).1 (readCommand nested '"' (r ++ '\n' :: m)).1 := by
  have hv := readCommand_val nested '"' r
  have hv' := readCommand_val nested '"' (r ++ '\n' :: m)
  have hp := (readPieces .quoted r).2
  rw [if_neg (by decide), if_pos (beq_self_eq_true _)] at hv hv'
  have hpieces : (readPieces .quoted r).1.1.intact = true := by
    rw [hv] at hi
    split_ifs at hi <;> exact (Words.intact_word_iff.1 hi).1
  obtain ⟨heq, hends⟩ := readPieces_stops .quoted r m h hpieces
  rw [heq] at hv'
  dsimp only at hv hv'
  rw [atWordEnd_append] at hv'
  split_ifs at hv hv' with he
  · rw [hv] at hi ⊢
    rw [hv']
    exact (readWords_takes nested _ m hends (Words.intact_word_iff.1 hi).2).map _
  · rw [hv] at hi
    cases (Words.intact_word_iff.1 hi).2
termination_by 6 * (r.length + 1) + 2
decreasing_by all_goals omega

theorem readCommand_takes (nested : Bool) (c : Char) (r m : List Char) (h : Ends (c :: r))
    (hi : (readCommand nested c r).1.1.intact = true) :
    Takes m (readCommand nested c r).1 (readCommand nested c (r ++ '\n' :: m)).1 := by
  by_cases hb : c = '\x7b'
  · subst hb
    exact readCommand_takes_braced nested r m h.tail hi
  by_cases hq : c = '"'
  · subst hq
    exact readCommand_takes_quoted nested r m h.tail hi
  have hv := readCommand_val nested c r
  have hv' := readCommand_val nested c (r ++ '\n' :: m)
  have hf := (readPiece c r).2
  have hp := (readPieces (.bare nested) (readPiece c r).1.2).2
  rw [if_neg (by simpa using hb), if_neg (by simpa using hq)] at hv hv'
  dsimp only at hv hv'
  rw [hv] at hi ⊢
  rw [hv']
  obtain ⟨hword, hrest⟩ := Words.intact_word_iff.1 hi
  obtain ⟨hfirst, hothers⟩ := Pieces.intact_cons_iff.1 hword
  obtain ⟨heq, hends⟩ := readPiece_stops c r m h hfirst
  rw [heq]
  dsimp only
  obtain ⟨heq', hends'⟩ := readPieces_stops (.bare nested) _ m hends hothers
  rw [heq']
  exact (readWords_takes nested _ m hends' hrest).map _
termination_by 6 * (r.length + 1) + 3
decreasing_by all_goals omega

theorem readPieces_stops (context : Context) (cs m : List Char) (h : Ends cs)
    (hi : (readPieces context cs).1.1.intact = true) :
    Stops m (readPieces context cs).1 (readPieces context (cs ++ '\n' :: m)).1 := by
  cases hcs : cs with
  | nil =>
    rw [hcs, readPieces_nil] at hi
    rw [readPieces_nil]
    cases context with
    | bare nested =>
      have hc : ¬(Context.bare nested).closes '\n' = true := Bool.false_ne_true
      have hs : (Context.bare nested).stops ('\n' :: m) = true := rfl
      rw [List.nil_append, readPieces_cons, if_neg hc, if_pos hs]
      exact ⟨rfl, ends_nil⟩
    | quoted | key => cases hi
  | cons c r =>
    rw [hcs] at h hi
    have hl : cs.length = r.length + 1 := by rw [hcs, List.length_cons]
    have hv := readPieces_cons context c r
    have hv' := readPieces_cons context c (r ++ '\n' :: m)
    have hstops : context.stops (c :: (r ++ '\n' :: m)) = context.stops (c :: r) := by
      cases context with
      | bare nested => exact atBareEnd_append nested h m
      | quoted | key => rfl
    have hp := (readPiece c r).2
    rw [hstops] at hv'
    rw [List.cons_append]
    split_ifs at hv hv' with hc hs
    · rw [hv, hv']
      exact ⟨rfl, h.tail⟩
    · rw [hv, hv']
      exact ⟨rfl, h⟩
    · rw [hv] at hi ⊢
      rw [hv']
      obtain ⟨hpiece, hrest⟩ := Pieces.intact_cons_iff.1 hi
      obtain ⟨heq, hends⟩ := readPiece_stops c r m h hpiece
      rw [heq]
      dsimp only
      obtain ⟨heq', hends'⟩ := readPieces_stops context _ m hends hrest
      rw [heq']
      exact ⟨rfl, hends'⟩
termination_by 6 * cs.length + 2
decreasing_by all_goals omega

theorem readPiece_stops (c : Char) (r m : List Char) (h : Ends (c :: r))
    (hi : (readPiece c r).1.1.intact = true) :
    Stops m (readPiece c r).1 (readPiece c (r ++ '\n' :: m)).1 := by
  by_cases hd : c = '$'
  · subst hd
    exact readPiece_stops_dollar r m h.tail hi
  by_cases hb : c = '['
  · subst hb
    rw [readPiece_bracket] at hi ⊢
    rw [readPiece_bracket]
    obtain ⟨heq, hends⟩ := readScript_stops r m h.tail hi
    rw [heq]
    exact ⟨rfl, hends⟩
  by_cases he : c = '\\'
  · subst he
    rw [readPiece_backslash, readPiece_backslash, h.escape_append]
    exact ⟨rfl, h.tail.of_suffix (Word.escape_suffix r)⟩
  rw [readPiece_char hd hb he, readPiece_char hd hb he]
  exact ⟨rfl, h.tail⟩
termination_by 6 * (r.length + 1) + 1
decreasing_by all_goals omega

/-- A name behind a dollar sign, with a key or without. -/
theorem readPiece_stops_dollar (r m : List Char) (h : Ends r)
    (hi : (readPiece '$' r).1.1.intact = true) :
    Stops m (readPiece '$' r).1 (readPiece '$' (r ++ '\n' :: m)).1 := by
  by_cases hb : ∃ r', r = '\x7b' :: r'
  · obtain ⟨r, rfl⟩ := hb
    exact readPiece_stops_braced m h.tail hi
  · have hr : ∀ r', r ≠ '\x7b' :: r' := fun r' hr => hb ⟨r', hr⟩
    have hr' : ∀ r', r ++ '\n' :: m ≠ '\x7b' :: r' := by
      intro r' hr'
      obtain ⟨r, rfl, -⟩ := exists_of_append_newline (by decide) hr'
      exact hr r rfl
    have hl := length_variableName_le r
    have happ := variableName_append r m
    have hends := h.of_suffix (variableName_suffix r)
    generalize hn : variableName r = named at hl happ hends
    obtain ⟨name, behind⟩ := named
    by_cases hp : ∃ behind', behind = '(' :: behind'
    · obtain ⟨behind, rfl⟩ := hp
      rw [List.cons_append] at happ
      rw [readPiece_elem hr hn] at hi ⊢
      rw [readPiece_elem hr' happ]
      obtain ⟨heq, hends'⟩ := readPieces_stops .key behind m hends.tail hi
      rw [heq]
      exact ⟨rfl, hends'⟩
    · have hparen : ∀ r', behind ++ '\n' :: m ≠ '(' :: r' := by
        intro r' hr'
        obtain ⟨r, rfl, -⟩ := exists_of_append_newline (by decide) hr'
        exact hp ⟨r, rfl⟩
      rw [readPiece_var hr (fun r' hr' => hp ⟨r', hr'⟩) hn, readPiece_var hr' hparen happ]
      exact ⟨rfl, hends⟩
termination_by 6 * r.length + 3
decreasing_by all_goals (simp only [List.length_cons] at *; omega)

end

/-! ### Scripts one behind the other -/

/-- What separates the commands of a script from its first one is of no account. -/
theorem readScript_congr {nested : Bool} {cs cs' : List Char}
    (h : skipSeparators cs' = skipSeparators cs) :
    (readScript nested cs').1 = (readScript nested cs).1 := by
  rw [readScript_val, readScript_val, h]

theorem readScript_false_nil : (readScript false []).1 = (.done, []) := by
  rw [readScript_val]
  rfl

/-- **Of a script in which nothing is broken all commands are read again before the
commands of the text behind it.** -/
theorem readScript_append (cs m : List Char) (h : Ends cs)
    (hi : (readScript false cs).1.1.intact = true) :
    (readScript false (cs ++ '\n' :: m)).1.1 =
      (readScript false cs).1.1.append (readScript false m).1.1 := by
  have hv := readScript_val false cs
  have hskip := skipSeparators_append h m
  have hends := h.of_suffix (skipSeparators_suffix cs)
  cases hs : skipSeparators cs with
  | nil =>
    rw [if_pos hs] at hskip
    rw [hs] at hv
    rw [readScript_congr hskip, hv]
    rfl
  | cons c r =>
    have hr := length_lt_of_skipSeparators hs
    have hv' := readScript_val false (cs ++ '\n' :: m)
    rw [hs] at hv hskip hends
    rw [if_neg (List.cons_ne_nil _ _), List.cons_append] at hskip
    rw [hskip] at hv'
    dsimp only at hv hv'
    rw [Bool.false_and, if_neg Bool.false_ne_true] at hv hv'
    split_ifs at hv hv' with hc
    · have hc := length_skipComment_le r
      rw [hv] at hi ⊢
      rw [hv']
      rcases skipComment_append hends.tail m with he | ⟨hn, he⟩
      · rw [he]
        exact readScript_append _ m (hends.tail.of_suffix (skipComment_suffix r)) hi
      · rw [hn, he, readScript_false_nil]
        rfl
    · have hw := (readCommand false c r).2
      rw [hv] at hi ⊢
      rw [hv']
      rw [Script.intact_command_iff] at hi
      obtain ⟨he | ⟨hn, he⟩, hbehind⟩ := readCommand_takes false c r m hends hi.1
      · rw [he, readScript_append _ m hbehind hi.2]
        rfl
      · rw [hn, he, readScript_false_nil]
        rfl
termination_by cs.length
decreasing_by all_goals omega

/-- The same of texts. -/
theorem ofText_append {s₁ : String} (h : s₁.toList.getLast? ≠ some '\\')
    (hi : (ofText s₁).intact = true) (s₂ : String) :
    ofText (s₁ ++ "\n" ++ s₂) = (ofText s₁).append (ofText s₂) := by
  rw [ofText, String.toList_append, String.toList_append, List.append_assoc]
  exact readScript_append s₁.toList s₂.toList h hi

/-- Something is read as a command only if there is a word. -/
theorem readCommand_ne_done (nested : Bool) (c : Char) (r : List Char) :
    (readCommand nested c r).1.1 ≠ .done := by
  intro h
  rw [readCommand_val] at h
  split_ifs at h
  split at h
  · cases h
  · split_ifs at h

/-- Every command of a script has a word, so it has the first one. -/
theorem ne_done_of_readScript {nested : Bool} (cs : List Char) {words : Words} {rest : Script}
    (h : (readScript nested cs).1.1 = .command words rest) : words ≠ .done := by
  rw [readScript_val] at h
  cases hs : skipSeparators cs with
  | nil =>
    rw [hs] at h
    dsimp only at h
    split_ifs at h
  | cons c r =>
    have hr := length_lt_of_skipSeparators hs
    rw [hs] at h
    dsimp only at h
    split_ifs at h
    · have hc := length_skipComment_le r
      exact ne_done_of_readScript _ h
    · cases h
      exact readCommand_ne_done nested c r
termination_by cs.length
decreasing_by all_goals omega

end Script
end CommandBridge
