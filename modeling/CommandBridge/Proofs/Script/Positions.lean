/-
# Reading scripts by byte positions

The readers of a script written for byte positions, with the cuts and searches that
`CommandBridge.Proofs.Word.Positions` has for lists.  A reader that breaks off leaves the
position at the end of the text or behind it, so that nothing more is read.  A comment may end
one byte behind the end, if its last byte is a backslash; nobody looks there.

The readers give the trees that the readers of characters give (`Positional.script?_eq`), so no
cut of theirs fails, whatever the text is (`reads_within`).  An evaluation in one pass stands
where the reader of the tree stands, until it breaks off
(`CommandBridge.Proofs.Script.OnePass`).
-/

import CommandBridge.Proofs.Script.Reading
import CommandBridge.Proofs.Word.Positions

namespace CommandBridge
namespace Positional

open Utf8

variable {text cs r : List Char} {c b : Char} {p : Nat}

/-! ### Scanning -/

/-- Passes over bytes of a kind and over line feeds behind a backslash. -/
def skipWhile (text : List Char) (P : Char → Bool) (p : Nat) : Nat :=
  match _h : byte? text p with
  | none => p
  | some b =>
    if P b then skipWhile text P (p + 1)
    else if b == '\\' && byte? text (p + 1) == some '\n' then skipWhile text P (p + 2)
    else p
termination_by width text - p
decreasing_by
  all_goals
    have hp := lt_width_of_byte? _h
    omega

/-- Passes over what may stand between commands. -/
def skipSeparators (text : List Char) : Nat → Nat :=
  skipWhile text fun b => Text.isBlank b || b == ';'

/-- Passes over what may stand between words. -/
def skipBlanks (text : List Char) : Nat → Nat :=
  skipWhile text fun b => Text.isBlank b && b != '\n'

/-- Passes over a comment with the line feed that ends it. -/
def skipComment (text : List Char) (p : Nat) : Nat :=
  match _h : byte? text p with
  | none => p
  | some b =>
    if b == '\\' then skipComment text (p + 2)
    else if b == '\n' then p + 1
    else skipComment text (p + 1)
termination_by width text - p
decreasing_by
  all_goals
    have hp := lt_width_of_byte? _h
    omega

/-- The end of the variable name at a position. -/
def nameEnd (text : List Char) (p : Nat) : Nat :=
  match _h : byte? text p with
  | none => p
  | some b =>
    if b.isAlphanum || b == '_' then nameEnd text (p + 1)
    else if b == ':' && byte? text (p + 1) == some ':' then nameEnd text (p + 2)
    else p
termination_by width text - p
decreasing_by
  all_goals
    have hp := lt_width_of_byte? _h
    omega

theorem le_skipWhile (text : List Char) (P : Char → Bool) (p : Nat) : p ≤ skipWhile text P p := by
  fun_induction skipWhile text P p <;> omega

theorem le_skipComment (text : List Char) (p : Nat) : p ≤ skipComment text p := by
  fun_induction skipComment text p <;> omega

theorem le_nameEnd (text : List Char) (p : Nat) : p ≤ nameEnd text p := by
  fun_induction nameEnd text p <;> omega

theorem skipComment_unfold (text : List Char) (p : Nat) : skipComment text p =
    (byte? text p).elim p fun b =>
      if b == '\\' then skipComment text (p + 2)
      else if b == '\n' then p + 1
      else skipComment text (p + 1) := by
  rw [skipComment]
  split
  all_goals
    rename_i h
    rw [h]
    rfl

theorem lt_skipComment (h : byte? text p = some b) : p < skipComment text p := by
  have hle := le_skipComment text (p + 1)
  have hle' := le_skipComment text (p + 2)
  rw [skipComment_unfold, h, Option.elim_some]
  split_ifs <;> omega

/-- Whether a word may end at a position. -/
def atWordEnd (text : List Char) (nested : Bool) (p : Nat) : Bool :=
  (byte? text p).all fun b => Text.isBlank b || b == ';' || (nested && b == ']')

/-- Whether a sequence of pieces ends before the byte `b` at a position. -/
def stops (text : List Char) (p : Nat) (b : Char) : Script.Context → Bool
  | .bare nested => Text.isBlank b || b == ';' || (nested && b == ']') ||
    (b == '\\' && byte? text (p + 1) == some '\n')
  | .quoted => false
  | .key => false

/-- The byte at which a character is found first. -/
def find? (c : Char) (cs : List Char) : Option Nat :=
  if cs.contains c then some (width (cs.takeWhile (· != c))) else none

/-! ### Reading -/

/-- What a reader gives back: a tree and the position behind it, not before `p`. -/
abbrev Reading (α : Type) (p : Nat) :=
  Option (α × { q : Nat // p ≤ q })

/-- The same reading, with a lower bound. -/
def Reading.widen {α : Type} {m n : Nat} (read : Reading α n) (h : m ≤ n) : Reading α m :=
  read.map fun (a, ⟨q, hq⟩) => (a, ⟨q, Nat.le_trans h hq⟩)

/-- A variable without a key; without a name it is a dollar sign. -/
def named (name : List Char) : Piece :=
  if name.isEmpty then .char '$' else .var (String.ofList name)

mutual

/-- Reads commands up to the end, or through the closing bracket if `nested`. -/
def script? (text : List Char) (nested : Bool) (p : Nat) : Reading Script p :=
  have hs : p ≤ skipSeparators text p := le_skipWhile ..
  match _h : byte? text (skipSeparators text p) with
  | none => some (if nested then .fail .missingBracket else .done, ⟨skipSeparators text p, hs⟩)
  | some b =>
    have hp := lt_width_of_byte? _h
    have hc := lt_skipComment _h
    if nested && b == ']' then
      some (.done, ⟨skipSeparators text p + 1, Nat.le_succ_of_le hs⟩)
    else if b == '#' then
      (script? text nested (skipComment text (skipSeparators text p))).widen
        (Nat.le_trans hs (Nat.le_of_lt hc))
    else do
      let (words, ⟨q, hq⟩) ← command? text nested (skipSeparators text p) b _h
      let (rest, ⟨q', hq'⟩) ← script? text nested q
      return (.command words rest, ⟨q', by omega⟩)
termination_by 6 * (width text - p) + 5
decreasing_by all_goals omega

/-- Reads the words of a command up to its end. -/
def words? (text : List Char) (nested : Bool) (p : Nat) : Reading Words p :=
  have hs : p ≤ skipBlanks text p := le_skipWhile ..
  match _h : byte? text (skipBlanks text p) with
  | none => some (.done, ⟨skipBlanks text p, hs⟩)
  | some b =>
    if b == '\n' || b == ';' then some (.done, ⟨skipBlanks text p + 1, Nat.le_succ_of_le hs⟩)
    else if nested && b == ']' then some (.done, ⟨skipBlanks text p, hs⟩)
    else (command? text nested (skipBlanks text p) b _h).widen (Nat.le_succ_of_le hs)
termination_by 6 * (width text - p) + 4
decreasing_by all_goals omega

/-- Reads the words of a command whose first word starts with the byte `b` at a position. -/
def command? (text : List Char) (nested : Bool) (p : Nat) (b : Char) (h : byte? text p = some b) :
    Reading Words (p + 1) :=
  have hp : p + 1 ≤ width text := lt_width_of_byte? h
  if b == '\x7b' then
    match _hc : closing? text 0 p with
    | none => none
    | some none => some (.fail .missingBrace, ⟨width text, hp⟩)
    | some (some close) =>
      have hclose := le_of_closing? _hc
      (slice? text (p + 1) close).bind fun word =>
        if atWordEnd text nested (close + 1) then do
          let (rest, ⟨q, hq⟩) ← words? text nested (close + 1)
          return (.literal (String.ofList word) rest, ⟨q, by omega⟩)
        else some (.fail .afterBrace, ⟨width text, hp⟩)
  else if b == '"' then do
    let (pieces, ⟨q, hq⟩) ← pieces? text .quoted (p + 1)
    if atWordEnd text nested q then
      let (rest, ⟨q', hq'⟩) ← words? text nested q
      return (.word pieces rest, ⟨q', Nat.le_trans hq hq'⟩)
    else return (.word pieces (.fail .afterQuote), ⟨width text, hp⟩)
  else do
    let (first, ⟨q, hq⟩) ← piece? text p b h
    let (others, ⟨q', hq'⟩) ← pieces? text (.bare nested) q
    let (rest, ⟨q'', hq''⟩) ← words? text nested q'
    return (.word (.cons first others) rest, ⟨q'', by omega⟩)
termination_by 6 * (width text - p) + 3
decreasing_by all_goals omega

/-- Reads pieces up to the end that the context sets. -/
def pieces? (text : List Char) (context : Script.Context) (p : Nat) : Reading Pieces p :=
  match _h : byte? text p with
  | none => some (context.atEnd, ⟨p, Nat.le_refl p⟩)
  | some b =>
    have hp := lt_width_of_byte? _h
    if context.closes b then some (.done, ⟨p + 1, Nat.le_succ p⟩)
    else if stops text p b context then some (.done, ⟨p, Nat.le_refl p⟩)
    else do
      let (piece, ⟨q, hq⟩) ← piece? text p b _h
      let (rest, ⟨q', hq'⟩) ← pieces? text context q
      return (.cons piece rest, ⟨q', by omega⟩)
termination_by 6 * (width text - p) + 2
decreasing_by all_goals omega

/-- Reads one piece that starts with the byte `b` at a position. -/
def piece? (text : List Char) (p : Nat) (b : Char) (h : byte? text p = some b) :
    Reading Piece (p + 1) :=
  have _hp := lt_width_of_byte? h
  if b == '$' then dollar? text (p + 1)
  else if b == '[' then do
    let (script, q) ← script? text true (p + 1)
    return (.script script, q)
  else
    match _hc : character? text p b with
    | none => none
    | some (c, used) => some (.char c, ⟨p + used, Nat.add_le_add_left (pos_of_character? _hc) p⟩)
termination_by 6 * (width text - p) + 1
decreasing_by all_goals omega

/-- Reads what stands behind a dollar sign. -/
def dollar? (text : List Char) (p : Nat) : Reading Piece p :=
  if byte? text p == some '\x7b' then
    (charsFrom? text p).bind fun behind =>
      (find? '\x7d' behind).elim
        (some (.fail .missingNameBrace, ⟨p + width text, Nat.le_add_right ..⟩))
        fun close => (slice? text (p + 1) (p + close)).map fun name =>
          (.var (String.ofList name), ⟨p + close + 1, by omega⟩)
  else
    have he := le_nameEnd text p
    (slice? text p (nameEnd text p)).bind fun name =>
      match _h : byte? text (nameEnd text p) with
      | none => some (named name, ⟨nameEnd text p, he⟩)
      | some b =>
        have _hp := lt_width_of_byte? _h
        if b == '(' then do
          let (key, ⟨q, hq⟩) ← pieces? text .key (nameEnd text p + 1)
          return (.elem (String.ofList name) key, ⟨q, by omega⟩)
        else some (named name, ⟨nameEnd text p, he⟩)
termination_by 6 * (width text - p) + 3
decreasing_by all_goals omega

end

/-! ### Where the readers stand -/

/-- From a position on there is still `cs` to be read; if that is nothing, the position may be
behind the end. -/
def GoesOn (text : List Char) (p : Nat) (cs : List Char) : Prop :=
  StandsAt text p cs ∨ cs = [] ∧ width text ≤ p

namespace GoesOn

theorem eq_nil (h : GoesOn text p cs) (hb : byte? text p = none) :
    cs = [] ∧ width text ≤ p := by
  refine ⟨?_, byte?_eq_none_iff.1 hb⟩
  rcases h with h | ⟨hnil, -⟩
  · cases cs with
    | nil => rfl
    | cons c cs =>
      obtain ⟨b, hb', -⟩ := h.byte?_cons
      exact absurd (hb'.symm.trans hb) (Option.some_ne_none b)
  · exact hnil

theorem eq_cons (h : GoesOn text p cs) (hb : byte? text p = some b) :
    ∃ c r, cs = c :: r ∧ StandsAt text p (c :: r) ∧ ∀ P, Ascii P → P b = P c := by
  rcases h with h | ⟨-, hend⟩
  · cases cs with
    | nil => exact absurd (hb.symm.trans h.byte?_nil) (Option.some_ne_none b)
    | cons c r =>
      obtain ⟨b', hb', hsame⟩ := h.byte?_cons
      obtain rfl := Option.some.inj (hb'.symm.trans hb)
      exact ⟨c, r, rfl, h, hsame⟩
  · exact absurd (hb.symm.trans (byte?_eq_none_iff.2 hend)) (Option.some_ne_none b)

end GoesOn

/-- Two bytes tell whether two ASCII characters stand at a position. -/
theorem pair_iff {a a' : Char} (ha : a.toNat < 0x80) (ha' : a'.toNat < 0x80)
    (h : StandsAt text p (c :: r)) :
    (c == a && byte? text (p + 1) == some a') = true ↔ ∃ r', c = a ∧ r = a' :: r' := by
  rw [Bool.and_eq_true, beq_iff_eq, beq_iff_eq, exists_and_left]
  refine and_congr_right fun hc => ?_
  subst hc
  have hr : StandsAt text (p + 1) r := utf8Size_of_ascii ha ▸ h.next
  rw [hr.byte?_eq_some_iff ha', List.head?_eq_some_iff]

theorem skipWhile_eq {P : Char → Bool} {drop : List Char → List Char} (hP : Ascii P)
    (hnil : drop [] = []) (hbreak : ∀ r, drop ('\\' :: '\n' :: r) = drop r)
    (hcons : ∀ c r, (∀ r', c = '\\' → r = '\n' :: r' → False) →
      drop (c :: r) = if P c then drop r else c :: r)
    (hback : P '\\' = false) (h : GoesOn text p cs) :
    GoesOn text (skipWhile text P p) (drop cs) := by
  fun_induction skipWhile text P p generalizing cs with
  | case1 p hb =>
    obtain ⟨rfl, hend⟩ := h.eq_nil hb
    exact .inr ⟨hnil, hend⟩
  | case2 p b hb hPb ih =>
    obtain ⟨c, r, rfl, hc, hsame⟩ := h.eq_cons hb
    rw [hsame P hP] at hPb
    have hone : c.utf8Size = 1 := utf8Size_of_ascii (hP.lt hPb)
    rw [hcons c r fun r' hc' _ => by rw [hc', hback] at hPb; exact Bool.noConfusion hPb, if_pos hPb]
    exact ih (.inl (hone ▸ hc.next))
  | case3 p b hb hPb hline ih =>
    obtain ⟨c, r, rfl, hc, hsame⟩ := h.eq_cons hb
    rw [hsame _ (.beq (by decide)), pair_iff (by decide) (by decide) hc] at hline
    obtain ⟨r, rfl, rfl⟩ := hline
    have hr : StandsAt text (p + 1) ('\n' :: r) := hc.next
    rw [hbreak]
    exact ih (.inl hr.next)
  | case4 p b hb hPb hline =>
    obtain ⟨c, r, rfl, hc, hsame⟩ := h.eq_cons hb
    rw [hsame _ (.beq (by decide)), pair_iff (by decide) (by decide) hc] at hline
    rw [hsame P hP] at hPb
    rw [hcons c r fun r' hc' hr' => hline ⟨r', hc', hr'⟩, if_neg hPb]
    exact .inl hc

theorem skipSeparators_eq (h : GoesOn text p cs) :
    GoesOn text (skipSeparators text p) (Script.skipSeparators cs) :=
  skipWhile_eq (.or .isBlank (.beq (by decide))) rfl (fun _ => rfl)
    (fun c r hne => by rw [Script.skipSeparators.eq_3]; exact hne) rfl h

theorem skipBlanks_eq (h : GoesOn text p cs) :
    GoesOn text (skipBlanks text p) (Script.skipBlanks cs) := by
  refine skipWhile_eq (fun c hc => ?_) rfl (fun _ => rfl)
    (fun c r hne => by rw [Script.skipBlanks.eq_3]; exact hne) rfl h
  rw [Ascii.isBlank c hc, Bool.false_and]

theorem skipComment_behind (h : width text ≤ p) : skipComment text p = p := by
  rw [skipComment_unfold, byte?_eq_none_iff.2 h, Option.elim_none]

theorem skipComment_of_high (h : byte? text p = some b) (hb : 0x80 ≤ b.toNat) :
    skipComment text p = skipComment text (p + 1) := by
  have hne {a : Char} (ha : a.toNat < 0x80) : (b == a) = false := Ascii.beq ha b hb
  rw [skipComment_unfold, h, Option.elim_some, hne (by decide), hne (by decide)]
  rfl

theorem skipComment_cons (h : StandsAt text p (c :: r)) :
    skipComment text p =
      if c == '\\' then skipComment text (p + 2)
      else if c == '\n' then p + 1
      else skipComment text (p + c.utf8Size) := by
  obtain ⟨b, hb, hsame⟩ := h.byte?_cons
  have hskip : skipComment text (p + 1) = skipComment text (p + c.utf8Size) :=
    h.skip fun q b => skipComment_of_high
  rw [skipComment_unfold, hb, Option.elim_some, hsame _ (.beq (by decide)),
    hsame _ (.beq (by decide)), hskip]

theorem skipComment_eq (h : StandsAt text p cs) :
    GoesOn text (skipComment text p) (Script.skipComment cs) := by
  fun_induction Script.skipComment cs generalizing p with
  | case1 =>
    have hend : p = width text := h.add_width
    rw [skipComment_behind (Nat.le_of_eq hend.symm)]
    exact .inl h
  | case2 =>
    have hend : p + 1 = width text := h.add_width
    rw [skipComment_cons h, if_pos (beq_self_eq_true _), skipComment_behind (by omega)]
    exact .inr ⟨rfl, by omega⟩
  | case3 c r ih =>
    -- behind the backslash the scan goes on inside of the next character
    have hc : StandsAt text (p + 1) (c :: r) := h.next
    have hskip : skipComment text (p + 2) = skipComment text (p + 1 + c.utf8Size) :=
      hc.skip fun q b => skipComment_of_high
    rw [skipComment_cons h, if_pos (beq_self_eq_true _), hskip]
    exact ih hc.next
  | case4 r =>
    rw [skipComment_cons h, if_neg (by decide), if_pos (beq_self_eq_true _)]
    exact .inl h.next
  | case5 c r hlast hback hline ih =>
    have hne : c ≠ '\\' := by
      rintro rfl
      cases r with
      | nil => exact hlast rfl rfl
      | cons d r => exact hback d r rfl rfl
    rw [skipComment_cons h, if_neg (by simpa using hne), if_neg (by simpa using hline)]
    exact ih h.next

theorem ascii_isNameChar : Ascii fun c => c.isAlphanum || c == '_' := by
  refine .or (fun c hc => ?_) (.beq (by decide))
  have hval : c.val.toNat = c.toNat := rfl
  have hlast : 'Z'.val.toNat = 90 ∧ 'z'.val.toNat = 122 ∧ '9'.val.toNat = 57 := ⟨rfl, rfl, rfl⟩
  change (decide ('A'.val ≤ c.val ∧ c.val ≤ 'Z'.val) ||
    decide ('a'.val ≤ c.val) && decide (c.val ≤ 'z'.val) ||
    decide ('0'.val ≤ c.val) && decide (c.val ≤ '9'.val)) = false
  simp only [Bool.or_eq_false_iff, Bool.and_eq_false_iff, decide_eq_false_iff_not,
    UInt32.le_iff_toNat_le, hval]
  omega

theorem nameEnd_unfold (text : List Char) (p : Nat) : nameEnd text p =
    (byte? text p).elim p fun b =>
      if b.isAlphanum || b == '_' then nameEnd text (p + 1)
      else if b == ':' && byte? text (p + 1) == some ':' then nameEnd text (p + 2)
      else p := by
  rw [nameEnd]
  split
  all_goals
    rename_i h
    rw [h]
    rfl

theorem nameEnd_cons (h : StandsAt text p (c :: r)) :
    nameEnd text p =
      if c.isAlphanum || c == '_' then nameEnd text (p + 1)
      else if c == ':' && byte? text (p + 1) == some ':' then nameEnd text (p + 2)
      else p := by
  obtain ⟨b, hb, hsame⟩ := h.byte?_cons
  rw [nameEnd_unfold, hb, Option.elim_some, hsame _ ascii_isNameChar, hsame _ (.beq (by decide))]

/-- A name ends where the rest behind it stands. -/
theorem nameEnd_eq (h : StandsAt text p cs) :
    (Script.variableName cs).1 ++ (Script.variableName cs).2 = cs ∧
      nameEnd text p = p + width (Script.variableName cs).1 := by
  fun_induction Script.variableName cs generalizing p with
  | case1 r ih =>
    have hr : StandsAt text (p + 1) (':' :: r) := h.next
    obtain ⟨happ, hend⟩ := ih hr.next
    have hwidth : width (':' :: ':' :: (Script.variableName r).1) =
        2 + width (Script.variableName r).1 := by
      rw [width_cons, width_cons, ← Nat.add_assoc]
      rfl
    refine ⟨congrArg (':' :: ':' :: ·) happ, ?_⟩
    rw [nameEnd_cons h, if_neg (by decide),
      if_pos ((pair_iff (by decide) (by decide) h).2 ⟨r, rfl, rfl⟩)]
    exact hend.trans ((Nat.add_assoc p 2 _).trans (congrArg (p + ·) hwidth.symm))
  | case2 c r hcolon hc ih =>
    have hone : c.utf8Size = 1 := utf8Size_of_ascii (ascii_isNameChar.lt hc)
    obtain ⟨happ, hend⟩ := ih h.next
    refine ⟨congrArg (c :: ·) happ, ?_⟩
    rw [nameEnd_cons h, if_pos hc, ← hone, hend, Nat.add_assoc, ← width_cons]
    rfl
  | case3 c r hcolon hc =>
    refine ⟨rfl, ?_⟩
    rw [nameEnd_cons h, if_neg hc, if_neg fun hpair => ?_]
    · rfl
    · obtain ⟨r', rfl, rfl⟩ := (pair_iff (by decide) (by decide) h).1 hpair
      exact hcolon r' rfl rfl
  | case4 => exact ⟨rfl, by rw [nameEnd_unfold, h.byte?_nil]; rfl⟩

/-- The brace behind a name is found, and the name is what stands before it. -/
theorem find?_eq (cs : List Char) :
    find? '\x7d' cs = (Script.bracedName? cs).map fun x => width x.1 := by
  fun_induction Script.bracedName? cs with
  | case1 => rfl
  | case2 r => rfl
  | case3 c r hc ih =>
    have hne : c ≠ '\x7d' := hc
    have hcons : find? '\x7d' (c :: r) = (find? '\x7d' r).map (c.utf8Size + ·) := by
      have hbne : (c != '\x7d') = true := bne_iff_ne.2 hne
      rw [find?, find?, List.contains_cons, beq_eq_false_iff_ne.2 hne.symm, Bool.false_or,
        List.takeWhile_cons, hbne, if_pos rfl, width_cons]
      split <;> rfl
    rw [hcons, ih, Option.map_map, Option.map_map]
    exact Option.map_congr fun x _ => (width_cons c x.1).symm

theorem append_of_bracedName? {name rest : List Char}
    (h : Script.bracedName? cs = some (name, rest)) : cs = name ++ '\x7d' :: rest := by
  fun_induction Script.bracedName? cs generalizing name with
  | case1 => cases h
  | case2 r =>
    cases h
    rfl
  | case3 c r hc ih =>
    obtain ⟨⟨name, rest⟩, hr, h⟩ := Option.map_eq_some_iff.1 h
    cases h
    exact congrArg (c :: ·) (ih hr)

/-! ### Reading by positions is reading -/

/-- A reader by positions gives the tree that the reader of characters gives, and goes on where
that one does. -/
def Agrees {α : Type} {n : Nat} (text : List Char) (x : Reading α n) (y : α × List Char) : Prop :=
  ∃ q hq, x = some (y.1, ⟨q, hq⟩) ∧ GoesOn text q y.2

theorem Agrees.bind {α β : Type} {m n : Nat} {x : Reading α m} {y : α × List Char}
    {f : α × { q : Nat // m ≤ q } → Reading β n} {z : β × List Char} (h : Agrees text x y)
    (hf : ∀ q hq, GoesOn text q y.2 → Agrees text (f (y.1, ⟨q, hq⟩)) z) :
    Agrees text (x >>= f) z := by
  obtain ⟨q, hq, rfl, hgo⟩ := h
  exact hf q hq hgo

theorem Agrees.widen {α : Type} {m n : Nat} {x : Reading α n} {y : α × List Char}
    (h : Agrees text x y) (hmn : m ≤ n) : Agrees text (x.widen hmn) y := by
  obtain ⟨q, hq, rfl, hgo⟩ := h
  exact ⟨q, Nat.le_trans hmn hq, rfl, hgo⟩

/-- A word may end at a position if it may end before what stands there. -/
theorem atWordEnd_eq (nested : Bool) (h : GoesOn text p cs) :
    atWordEnd text nested p = Script.atWordEnd nested cs := by
  have hP : Ascii fun b => Text.isBlank b || b == ';' || (nested && b == ']') :=
    .or (.or .isBlank (.beq (by decide))) (.and nested (.beq (by decide)))
  rcases h with h | ⟨rfl, hend⟩
  · rw [atWordEnd, h.all_byte? hP]
    cases cs <;> rfl
  · rw [atWordEnd, byte?_eq_none_iff.2 hend]
    rfl

theorem ascii_closes (context : Script.Context) : Ascii context.closes := by
  cases context with
  | bare nested => exact fun c hc => rfl
  | quoted | key => exact .beq (by decide)

theorem stops_eq (context : Script.Context) (h : StandsAt text p (c :: r))
    (hsame : ∀ P, Ascii P → P b = P c) :
    stops text p b context = context.stops (c :: r) := by
  cases context with
  | quoted | key => rfl
  | bare nested =>
    rw [stops, hsame _ .isBlank, hsame _ (.beq (by decide)), hsame _ (.beq (by decide)),
      hsame _ (.beq (by decide)), Script.Context.stops]
    by_cases hline : ∃ r', c = '\\' ∧ r = '\n' :: r'
    · rw [(pair_iff (by decide) (by decide) h).2 hline, Bool.or_true]
      obtain ⟨r, rfl, rfl⟩ := hline
      rfl
    · rw [Bool.eq_false_iff.2 (mt (pair_iff (by decide) (by decide) h).1 hline), Bool.or_false,
        Script.atBareEnd]
      · rfl
      · exact fun r' hcs => hline ⟨r', (List.cons.inj hcs).1, (List.cons.inj hcs).2⟩

/-- A name in braces behind a dollar sign. -/
theorem dollar?_braced (h : StandsAt text p ('\x7b' :: r)) :
    Agrees text (dollar? text p) (Script.readPiece '$' ('\x7b' :: r)).1 := by
  have hbyte : byte? text p = some '\x7b' := (h.byte?_eq_some_iff (by decide)).2 rfl
  have hfind : find? '\x7d' ('\x7b' :: r) =
      (Script.bracedName? r).map fun x => 1 + width x.1 := by
    rw [find?_eq]
    change ((Script.bracedName? r).map _).map _ = _
    rw [Option.map_map]
    exact Option.map_congr fun x _ => width_cons '\x7b' x.1
  rw [dollar?, hbyte, if_pos (beq_self_eq_true _), h.charsFrom?, Option.bind_some, hfind,
    Script.readPiece_braced]
  rcases hname : Script.bracedName? r with _ | ⟨name, behind⟩
  · exact ⟨_, _, rfl, .inr ⟨rfl, Nat.le_add_left ..⟩⟩
  · have hr : StandsAt text (p + 1) (name ++ '\x7d' :: behind) :=
      append_of_bracedName? hname ▸ h.next
    have hslice : slice? text (p + 1) (p + (1 + width name)) = some name :=
      Nat.add_assoc p 1 (width name) ▸ hr.slice?
    have hbehind : StandsAt text (p + (1 + width name) + 1) behind :=
      Nat.add_assoc p 1 (width name) ▸ hr.append.next
    rw [Option.map_some, Option.elim_some, hslice]
    exact ⟨_, _, rfl, .inl hbehind⟩

mutual

/-- **A script is read** as it is by characters. -/
theorem script?_eq (nested : Bool) {p : Nat} {cs : List Char} (h : GoesOn text p cs) :
    Agrees text (script? text nested p) (Script.readScript nested cs).1 := by
  have hs := skipSeparators_eq h
  rw [Script.readScript_val, script?]
  split
  · rename_i hb
    obtain ⟨hnil, hend⟩ := hs.eq_nil hb
    rw [hnil]
    exact ⟨_, _, rfl, .inr ⟨rfl, hend⟩⟩
  · rename_i b hb
    obtain ⟨c, r, hcs, hc, hsame⟩ := hs.eq_cons hb
    have hr : r.length < cs.length := Script.length_lt_of_skipSeparators hcs
    rw [hcs]
    dsimp only
    rw [hsame _ (.beq (by decide)), hsame _ (.beq (by decide))]
    split_ifs with hclose hcomment
    · obtain ⟨-, hc'⟩ := Bool.and_eq_true_iff.1 hclose
      obtain rfl := eq_of_beq hc'
      exact ⟨_, _, rfl, .inl hc.next⟩
    · obtain rfl := eq_of_beq hcomment
      have hl := Script.length_skipComment_le r
      have hbehind := skipComment_eq hc
      rw [show Script.skipComment ('#' :: r) = Script.skipComment r from rfl] at hbehind
      exact (script?_eq nested hbehind).widen _
    · have hl := (Script.readCommand nested c r).2
      refine (command?_eq nested hc hb).bind fun q hq hgo => ?_
      refine (script?_eq nested hgo).bind fun q' hq' hgo' => ?_
      exact ⟨_, _, rfl, hgo'⟩
termination_by 6 * cs.length + 5
decreasing_by all_goals omega

theorem words?_eq (nested : Bool) {p : Nat} {cs : List Char} (h : GoesOn text p cs) :
    Agrees text (words? text nested p) (Script.readWords nested cs).1 := by
  have hs := skipBlanks_eq h
  rw [Script.readWords_val, words?]
  split
  · rename_i hb
    obtain ⟨hnil, hend⟩ := hs.eq_nil hb
    rw [hnil]
    exact ⟨_, _, rfl, .inr ⟨rfl, hend⟩⟩
  · rename_i b hb
    obtain ⟨c, r, hcs, hc, hsame⟩ := hs.eq_cons hb
    have hr : r.length < cs.length := Script.length_lt_of_skipBlanks hcs
    rw [hcs]
    dsimp only
    rw [hsame _ (.beq (by decide)), hsame _ (.beq (by decide)), hsame _ (.beq (by decide))]
    split_ifs with hend hclose
    · have hone : c.utf8Size = 1 := utf8Size_of_ascii
        ((Ascii.beq (by decide)).or (.beq (by decide)) |>.lt hend)
      exact ⟨_, _, rfl, .inl (hone ▸ hc.next)⟩
    · exact ⟨_, _, rfl, .inl hc⟩
    · exact (command?_eq nested hc hb).widen _
termination_by 6 * cs.length + 4
decreasing_by all_goals omega

/-- A word between braces. -/
theorem command?_braced (nested : Bool) {p : Nat} {b : Char} {r : List Char}
    (h : StandsAt text p ('\x7b' :: r)) (hb : byte? text p = some b)
    (hbrace : (b == '\x7b') = true) :
    Agrees text (command? text nested p b hb) (Script.readCommand nested '\x7b' r).1 := by
  have hclosing := closing?_open h
  rw [Script.readCommand_val, if_pos (beq_self_eq_true _), command?, if_pos hbrace]
  split
  · rename_i hfound
    cases hfound.symm.trans hclosing
  · rename_i hfound
    rcases hclose : Word.closeBrace 0 r with _ | ⟨word, rest⟩
    · exact ⟨_, _, rfl, .inr ⟨rfl, Nat.le_refl _⟩⟩
    · rw [hclose] at hclosing
      cases hfound.symm.trans hclosing
  · rename_i close hfound
    rcases hclose : Word.closeBrace 0 r with _ | ⟨word, rest⟩
    · rw [hclose] at hclosing
      cases hfound.symm.trans hclosing
    · have hl := Word.length_lt_of_closeBrace hclose
      have hr : StandsAt text (p + 1) (word ++ '\x7d' :: rest) :=
        Word.append_of_closeBrace hclose ▸ h.next
      have hrest : StandsAt text (p + 1 + width word + 1) rest := hr.append.next
      rw [hclose] at hclosing
      obtain rfl := Option.some.inj (Option.some.inj (hfound.symm.trans hclosing))
      rw [hr.slice?, Option.bind_some, atWordEnd_eq nested (.inl hrest)]
      dsimp only
      split_ifs
      · exact (words?_eq nested (.inl hrest)).bind fun q hq hgo => ⟨_, _, rfl, hgo⟩
      · exact ⟨_, _, rfl, .inr ⟨rfl, Nat.le_refl _⟩⟩
termination_by 6 * (r.length + 1) + 2
decreasing_by all_goals omega

theorem command?_eq (nested : Bool) {p : Nat} {b c : Char} {r : List Char}
    (h : StandsAt text p (c :: r)) (hb : byte? text p = some b) :
    Agrees text (command? text nested p b hb) (Script.readCommand nested c r).1 := by
  obtain ⟨b', hb', hsame⟩ := h.byte?_cons
  obtain rfl := Option.some.inj (hb'.symm.trans hb)
  by_cases hbrace : c = '\x7b'
  · subst hbrace
    exact command?_braced nested h hb (hsame (· == '\x7b') (.beq (by decide)))
  have hne : ¬(c == '\x7b') = true := by simpa using hbrace
  rw [Script.readCommand_val, command?, hsame _ (.beq (by decide)), hsame _ (.beq (by decide))]
  split_ifs with hquote hend
  · have hl := (Script.readPieces .quoted r).2
    obtain rfl := eq_of_beq hquote
    refine (pieces?_eq .quoted (.inl h.next)).bind fun q hq hgo => ?_
    dsimp only
    rw [atWordEnd_eq nested hgo, if_pos hend]
    exact (words?_eq nested hgo).bind fun q' hq' hgo' => ⟨_, _, rfl, hgo'⟩
  · obtain rfl := eq_of_beq hquote
    refine (pieces?_eq .quoted (.inl h.next)).bind fun q hq hgo => ?_
    dsimp only
    rw [atWordEnd_eq nested hgo, if_neg hend]
    exact ⟨_, _, rfl, .inr ⟨rfl, Nat.le_refl _⟩⟩
  · have hf := (Script.readPiece c r).2
    have hp := (Script.readPieces (.bare nested) (Script.readPiece c r).1.2).2
    refine (piece?_eq h hb).bind fun q hq hgo => ?_
    refine (pieces?_eq (.bare nested) hgo).bind fun q' hq' hgo' => ?_
    exact (words?_eq nested hgo').bind fun q'' hq'' hgo'' => ⟨_, _, rfl, hgo''⟩
termination_by 6 * (r.length + 1) + 3
decreasing_by all_goals omega

theorem pieces?_eq (context : Script.Context) {p : Nat} {cs : List Char} (h : GoesOn text p cs) :
    Agrees text (pieces? text context p) (Script.readPieces context cs).1 := by
  rw [pieces?]
  split
  · rename_i hb
    obtain ⟨rfl, hend⟩ := h.eq_nil hb
    rw [Script.readPieces_nil]
    exact ⟨_, _, rfl, .inr ⟨rfl, hend⟩⟩
  · rename_i b hb
    obtain ⟨c, r, hcs, hc, hsame⟩ := h.eq_cons hb
    have hr : r.length < cs.length := by
      rw [hcs]
      exact Nat.lt_succ_self _
    rw [hcs, Script.readPieces_cons, hsame _ (ascii_closes context), stops_eq context hc hsame]
    split_ifs with hclose hstop
    · have hone : c.utf8Size = 1 := utf8Size_of_ascii ((ascii_closes context).lt hclose)
      exact ⟨_, _, rfl, .inl (hone ▸ hc.next)⟩
    · exact ⟨_, _, rfl, .inl hc⟩
    · have hl := (Script.readPiece c r).2
      refine (piece?_eq hc hb).bind fun q hq hgo => ?_
      refine (pieces?_eq context hgo).bind fun q' hq' hgo' => ?_
      exact ⟨_, _, rfl, hgo'⟩
termination_by 6 * cs.length + 2
decreasing_by all_goals omega

theorem piece?_eq {p : Nat} {b c : Char} {r : List Char} (h : StandsAt text p (c :: r))
    (hb : byte? text p = some b) :
    Agrees text (piece? text p b hb) (Script.readPiece c r).1 := by
  obtain ⟨b', hb', hsame⟩ := h.byte?_cons
  obtain rfl := Option.some.inj (hb'.symm.trans hb)
  rw [piece?, hsame _ (.beq (by decide)), hsame _ (.beq (by decide))]
  split_ifs with hdollar hbracket
  · obtain rfl := eq_of_beq hdollar
    exact dollar?_eq h.next
  · obtain rfl := eq_of_beq hbracket
    rw [Script.readPiece_bracket]
    exact (script?_eq true (.inl h.next)).bind fun q hq hgo => ⟨_, _, rfl, hgo⟩
  · obtain ⟨used, hchar, hbehind⟩ := character?_eq h hb
    have hread : (Script.readPiece c r).1 =
        (.char (if c == '\\' then Word.escape r else (c, r)).1,
          (if c == '\\' then Word.escape r else (c, r)).2) := by
      split_ifs with hback
      · obtain rfl := eq_of_beq hback
        exact Script.readPiece_backslash r
      · exact Script.readPiece_char (by simpa using hdollar) (by simpa using hbracket)
          (by simpa using hback) r
    rw [hread]
    split
    · rename_i hnone
      cases hchar.symm.trans hnone
    · rename_i d used' hfound
      cases hchar.symm.trans hfound
      exact ⟨_, _, rfl, .inl hbehind⟩
termination_by 6 * (r.length + 1) + 1
decreasing_by all_goals omega

theorem dollar?_eq {p : Nat} {r : List Char} (h : StandsAt text p r) :
    Agrees text (dollar? text p) (Script.readPiece '$' r).1 := by
  by_cases hbrace : ∃ r', r = '\x7b' :: r'
  · obtain ⟨r, rfl⟩ := hbrace
    exact dollar?_braced h
  have hr : ∀ r', r ≠ '\x7b' :: r' := fun r' hr' => hbrace ⟨r', hr'⟩
  have hbyte : ¬(byte? text p == some '\x7b') = true := by
    rwa [beq_iff_eq, h.byte?_eq_some_iff (by decide), List.head?_eq_some_iff]
  obtain ⟨happ, hend⟩ := nameEnd_eq h
  rcases hname : Script.variableName r with ⟨name, behind⟩
  rw [hname] at happ hend
  have hname' : StandsAt text p (name ++ behind) := happ.symm ▸ h
  have hbehind : StandsAt text (nameEnd text p) behind := hend ▸ hname'.append
  have hslice : slice? text p (nameEnd text p) = some name := hend ▸ hname'.slice?
  rw [dollar?, if_neg hbyte, hslice, Option.bind_some]
  split
  · rename_i hb
    obtain ⟨rfl, -⟩ := GoesOn.eq_nil (.inl hbehind) hb
    rw [Script.readPiece_var hr (fun r' => (List.cons_ne_nil '(' r').symm) hname]
    exact ⟨_, _, rfl, .inl hbehind⟩
  · rename_i b hb
    obtain ⟨c, behind, rfl, hc, hsame⟩ := GoesOn.eq_cons (.inl hbehind) hb
    rw [hsame _ (.beq (by decide))]
    split_ifs with hopen
    · obtain rfl := eq_of_beq hopen
      have hl : behind.length < r.length := by
        rw [← happ, List.length_append, List.length_cons]
        omega
      rw [Script.readPiece_elem hr hname]
      exact (pieces?_eq .key (.inl hc.next)).bind fun q hq hgo => ⟨_, _, rfl, hgo⟩
    · have hne : ∀ r', c :: behind ≠ '(' :: r' := fun r' hr' =>
        hopen (beq_iff_eq.2 (List.cons.inj hr').1)
      rw [Script.readPiece_var hr hne hname]
      exact ⟨_, _, rfl, .inl hbehind⟩
termination_by 6 * r.length + 3
decreasing_by all_goals omega

end

/-! ### No text is read outside of its bounds -/

/-- **No list and no script makes a reader look outside of the text or inside of a character.**
Lists and scripts are read by positions as they are by characters, a backslash is decoded
wherever one stands, the word at a position is cut out wherever a character starts, and no brace
that is open is closed too often. -/
theorem reads_within (s : String) :
    split? s.toList 0 = some (Word.split s.toList) ∧
      (script? s.toList false 0).map Prod.fst = some (Script.ofText s) ∧
      (∀ p r, StandsAt s.toList p ('\\' :: r) → ∃ used,
        backslash? s.toList p = some ((Word.escape r).1, used) ∧
          StandsAt s.toList (p + used) (Word.escape r).2) ∧
      (∀ p cs, StandsAt s.toList p cs →
        wordAfter? s.toList p = some (cs.takeWhile fun c => !Text.isBlank c)) ∧
      ∀ p, byte? s.toList p = some '\x7b' → closing? s.toList 0 p ≠ none := by
  refine ⟨split?_eq (.zero _), ?_, fun p r h => backslash?_eq h, fun p cs h => wordAfter?_eq h,
    fun p hp => ?_⟩
  · obtain ⟨q, hq, hread, -⟩ := script?_eq false (.inl (.zero s.toList))
    rw [hread]
    rfl
  · rw [closing?_unfold, hp, Option.elim_some]
    exact closing?_ne_none (Nat.succ_pos 0)

/-- Behind the backslash the search for the brace goes on inside of a character. -/
theorem reads_within_character :
    byte? ['\x7b', '\\', 'é', '\x7d'] 0 = some '\x7b' ∧
      closing? ['\x7b', '\\', 'é', '\x7d'] 0 0 ≠ none ∧
      wordAfter? ['\x7b', '\\', 'é', '\x7d'] 2 = some ['é', '\x7d'] := by
  have hs : ("\x7b\\é\x7d" : String).toList = ['\x7b', '\\', 'é', '\x7d'] := by decide
  have hbyte : byte? ("\x7b\\é\x7d" : String).toList 0 = some '\x7b' := by decide
  have h := reads_within "\x7b\\é\x7d"
  rw [hs] at h hbyte
  exact ⟨hbyte, h.2.2.2.2 0 hbyte, h.2.2.2.1 2 _ ⟨['\x7b', '\\'], rfl, rfl⟩⟩

end Positional
end CommandBridge
