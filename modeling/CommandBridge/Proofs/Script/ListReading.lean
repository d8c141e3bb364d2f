/-
# List text read as a script

Read as a script, the text of a list is one command whose words are the elements
of the list, written without any substitution (`ofText_listText`).  The two
forms of `Word.quote_cases` are the braced word and the bare word of the reader:
a spelling has no character that would end a bare word or start a substitution,
and no element starts with a character that means something between commands.
-/

import CommandBridge.Proofs.Script.Plain
import CommandBridge.Proofs.Script.Reading
import CommandBridge.Proofs.Word.Splitting

namespace CommandBridge
namespace Script

/-! ### One word -/

theorem atBareEnd_of_atBoundary (nested : Bool) {cs : List Char} (h : Word.atBoundary cs = true) :
    atBareEnd nested cs = true ∧ atWordEnd nested cs = true := by
  cases cs with
  | nil => exact ⟨rfl, rfl⟩
  | cons c r =>
    have hc : Text.isBlank c = true := by simpa [Word.atBoundary] using h
    have hw : atWordEnd nested (c :: r) = true := by rw [atWordEnd, hc, Bool.true_or, Bool.true_or]
    refine ⟨?_, hw⟩
    unfold atBareEnd
    split
    · rfl
    · exact hw

theorem atBareEnd_plain (nested : Bool) {c : Char} (h : Word.isSpecial c = false)
    (r : List Char) : atBareEnd nested (c :: r) = false := by
  have hs : c ≠ ';' := Word.ne_of_not_isSpecial h rfl
  have hb : c ≠ ']' := Word.ne_of_not_isSpecial h rfl
  rw [atBareEnd]
  · simp [atWordEnd, Word.isBlank_of_not_isSpecial h, hs, hb]
  · intro r' he
    exact Word.ne_of_not_isSpecial h (d := '\\') rfl (List.cons.inj he).1

theorem atBareEnd_backslash (nested : Bool) {d : Char} (hd : d ≠ '\n') (r : List Char) :
    atBareEnd nested ('\\' :: d :: r) = false := by
  rw [atBareEnd]
  · simp [atWordEnd, Text.isBlank]
  · intro r' he
    exact hd (List.cons.inj (List.cons.inj he).2).1

/-- **A spelling is read as the characters that it spells.** -/
theorem readPieces_spelled (nested : Bool) {cs ds rest : List Char} (h : Word.Spelled cs ds)
    (hr : Word.atBoundary rest = true) : ∃ pieces,
      (readPieces (.bare nested) (ds ++ rest)).1 = (pieces, rest) ∧ pieces.text? = some cs := by
  induction h with
  | nil =>
    cases rest with
    | nil => exact ⟨.done, readPieces_nil _, rfl⟩
    | cons c r =>
      refine ⟨.done, ?_, rfl⟩
      rw [List.nil_append, readPieces_cons, if_neg (by simp [Context.closes]), Context.stops,
        if_pos (atBareEnd_of_atBoundary nested hr).1]
  | @plain c cs ds hc h ih =>
    obtain ⟨pieces, hp, ht⟩ := ih
    have hc' := readPiece_char (Word.ne_of_not_isSpecial hc rfl) (Word.ne_of_not_isSpecial hc rfl)
      (Word.ne_of_not_isSpecial hc rfl) (ds ++ rest)
    refine ⟨.cons (.char c) pieces, ?_, by rw [Pieces.text?, ht]; rfl⟩
    rw [List.cons_append, readPieces_cons, if_neg (by simp [Context.closes]), Context.stops,
      atBareEnd_plain nested hc, if_neg (by simp), hc', hp]
  | @escaped c d cs ds hd hc h ih =>
    obtain ⟨pieces, hp, ht⟩ := ih
    refine ⟨.cons (.char c) pieces, ?_, by rw [Pieces.text?, ht]; rfl⟩
    rw [List.cons_append, List.cons_append, readPieces_cons, if_neg (by simp [Context.closes]),
      Context.stops, atBareEnd_backslash nested hd, if_neg (by simp), readPiece_backslash, hc, hp]

/-- An element starts a word: with no blank, separator or comment sign, nor
with a backslash before a line feed. -/
theorem quote_append_head (cs rest : List Char) : ∃ c r, Word.quote cs ++ rest = c :: r ∧
    Text.isBlank c = false ∧ c ∉ [';', ']', '#'] ∧ ∀ r', c = '\\' → r ≠ '\n' :: r' := by
  rcases Word.quote_cases cs with ⟨hq, -⟩ | ⟨hne, hs, hh⟩
  · exact ⟨'\x7b', cs ++ ['\x7d'] ++ rest, by rw [hq]; rfl, rfl, by decide,
      fun r' he => absurd he (by decide)⟩
  · generalize Word.quote cs = ds at hs hh ⊢
    cases hs with
    | nil => exact absurd rfl hne
    | @plain c cs ds hc h =>
      have hs : c ≠ ';' := Word.ne_of_not_isSpecial hc rfl
      have hb : c ≠ ']' := Word.ne_of_not_isSpecial hc rfl
      have hn : c ≠ '#' := by simpa using hh
      exact ⟨c, ds ++ rest, rfl, Word.isBlank_of_not_isSpecial hc, by simp [hs, hb, hn],
        fun r' he => absurd he (Word.ne_of_not_isSpecial hc rfl)⟩
    | @escaped c d cs ds hd hc h =>
      refine ⟨'\\', d :: ds ++ rest, rfl, rfl, by decide, fun r' _ he => ?_⟩
      exact hd (List.cons.inj he).1

/-- **The reader takes an element for one word without substitution.** -/
theorem readCommand_quote (nested : Bool) (cs : List Char) {rest r : List Char} {c : Char}
    (hr : Word.atBoundary rest = true) (hq : Word.quote cs ++ rest = c :: r) : ∃ words,
      (readCommand nested c r).1 = (words, (readWords nested rest).1.2) ∧
        words.texts = some (String.ofList cs) :: (readWords nested rest).1.1.texts := by
  rcases Word.quote_cases cs with ⟨hb, hc⟩ | ⟨hne, hs, -⟩
  · rw [hb, List.cons_append, List.append_assoc] at hq
    obtain ⟨rfl, rfl⟩ := List.cons.inj hq
    refine ⟨.literal (String.ofList cs) (readWords nested rest).1.1, ?_, rfl⟩
    rw [readCommand_val, if_pos (beq_self_eq_true _), List.singleton_append, hc]
    dsimp only
    rw [if_pos (atBareEnd_of_atBoundary nested hr).2]
  · obtain ⟨pieces, hp, ht⟩ := readPieces_spelled nested hs hr
    rw [hq, readPieces_cons, if_neg (by simp [Context.closes])] at hp
    split at hp
    · obtain rfl := (Prod.mk.inj hp).1
      exact absurd (Option.some.inj ht).symm hne
    · obtain ⟨rfl, rfl⟩ := Prod.mk.inj hp
      have hb : c ≠ '\x7b' := hs.head_ne hne hq rfl (by decide)
      have hd : c ≠ '"' := hs.head_ne hne hq rfl (by decide)
      have hv := readCommand_val nested c r
      rw [if_neg (by simpa using hb), if_neg (by simpa using hd)] at hv
      refine ⟨_, hv, ?_⟩
      rw [Words.texts, ht]
      rfl

/-! ### The whole text -/

theorem skipBlanks_self {c : Char} {r : List Char} (hb : Text.isBlank c = false)
    (hn : ∀ r', c = '\\' → r ≠ '\n' :: r') : skipBlanks (c :: r) = c :: r := by
  rw [skipBlanks]
  · simp [hb]
  · exact hn

theorem skipSeparators_self {c : Char} {r : List Char} (hb : Text.isBlank c = false)
    (hs : c ≠ ';') (hn : ∀ r', c = '\\' → r ≠ '\n' :: r') : skipSeparators (c :: r) = c :: r := by
  rw [skipSeparators]
  · simp [hb, hs]
  · exact hn

/-- The text behind an element is read up to its end, one word for each element. -/
theorem readWords_separated (nested : Bool) (xs : List (List Char)) :
    (readWords nested (Word.separated xs)).1.2 = [] ∧
      (readWords nested (Word.separated xs)).1.1.texts =
        xs.map fun cs => some (String.ofList cs) := by
  induction xs with
  | nil =>
    rw [Word.separated, readWords_val, skipBlanks]
    exact ⟨rfl, rfl⟩
  | cons x xs ih =>
    obtain ⟨c, r, hq, hb, hm, hn⟩ := quote_append_head x (Word.separated xs)
    obtain ⟨words, hw, ht⟩ := readCommand_quote nested x (Word.atBoundary_separated xs) hq
    have hs : skipBlanks (Word.separated (x :: xs)) = c :: r := by
      rw [Word.separated, skipBlanks, Word.joined_cons, hq, skipBlanks_self hb hn]
      · rfl
      · simp
      · simp
    simp only [List.mem_cons, List.not_mem_nil, or_false, not_or] at hm
    have hl : (c == '\n' || c == ';') = false := by
      have : c ≠ '\n' := by
        rintro rfl
        cases hb
      simp [this, hm]
    have he : (readWords nested (Word.separated (x :: xs))).1 = (readCommand nested c r).1 := by
      rw [readWords_val, hs]
      dsimp only
      rw [hl, if_neg (by simp), if_neg (by simp [hm])]
    rw [he, hw]
    exact ⟨ih.1, by rw [ht, ih.2]; rfl⟩

/-- **List text is a script of one command, whose words are the elements.**
None of them is substituted and nothing is left over. -/
theorem ofText_listText {ws : List String} (hws : ws ≠ []) : ∃ words,
    ofText (Word.listText ws) = .command words .done ∧ words.texts = ws.map some := by
  obtain ⟨w, ws, rfl⟩ := List.exists_cons_of_ne_nil hws
  obtain ⟨c, r, hq, hb, hm, hn⟩ :=
    quote_append_head w.toList (Word.separated (ws.map String.toList))
  obtain ⟨words, hw, ht⟩ := readCommand_quote false w.toList
    (Word.atBoundary_separated (ws.map String.toList)) hq
  obtain ⟨hrest, htexts⟩ := readWords_separated false (ws.map String.toList)
  simp only [List.mem_cons, List.not_mem_nil, or_false, not_or] at hm
  have hs : skipSeparators (c :: r) = c :: r := skipSeparators_self hb hm.1 hn
  refine ⟨words, ?_, ?_⟩
  · rw [ofText, ofChars, Word.listText, String.toList_ofList, List.map_cons, Word.joined_cons, hq,
      readScript_val, hs]
    dsimp only
    rw [if_neg (by simp), if_neg (by simp [hm]), hw, hrest, readScript_val, skipSeparators]
    rfl
  · rw [ht, htexts]
    simp

end Script
end CommandBridge
