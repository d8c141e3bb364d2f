/-
# Reading lists by byte positions

The readers of list text can be written for byte positions instead of characters left over,
as a program does that holds the text as bytes: it looks at single bytes, compares them with
ASCII characters and cuts pieces out of the text.  Every such cut may fail, and a reader
fails with it (`none`).  So does the search for a closing brace if it would have to go below
a depth of zero.

None of them ever fails: they do what the readers of characters do
(`Positional.backslash?_eq`, `closing?_eq`, `split?_eq`).  Between two cuts a reader may stand
inside of a character, or behind the end of the text: a backslash takes one byte along,
whatever character it belongs to.  The bytes that are left of that character are no ASCII
and are passed over one by one.
-/

import CommandBridge.Proofs.Bytes.Positions
import CommandBridge.Word.Split

namespace CommandBridge

namespace Utf8.Ascii

theorem isBlank : Ascii Text.isBlank :=
  or (or (or (or (or (beq (by decide)) (beq (by decide))) (beq (by decide))) (beq (by decide)))
    (beq (by decide))) (beq (by decide))

theorem isDigitOf (base : Nat) : Ascii (Word.isDigitOf base) := by
  intro c hc
  have hc (lo hi : Nat) (hhi : hi < 0x80) : ¬(lo ≤ c.toNat ∧ c.toNat ≤ hi) := by omega
  simp only [Word.isDigitOf, Integer.digit?, if_neg (hc 48 57 (by decide)),
    if_neg (hc 97 102 (by decide)), if_neg (hc 65 70 (by decide)), Nat.lt_irrefl, if_false]
  rfl

end Utf8.Ascii

namespace Positional

open Utf8 Word

variable {text cs r : List Char} {c : Char} {p : Nat}

/-! ### Backslash sequences -/

/-- Hexadecimal digits behind the letter `c`: their character and the number of bytes with the
backslash and the letter. -/
def hex? (c : Char) (limit : Nat) (digits : List Char) : Option (Char × Nat) :=
  let count := (((byteChars digits).take limit).takeWhile (isDigitOf 16)).length
  if count = 0 then some (c, 2)
  else (charsTo? digits count).map fun ds => (charOfCode (digitsValue 16 ds), 2 + count)

/-- The character that the backslash at a position and what follows it stand for, and the
number of bytes that they take. -/
def backslash? (text : List Char) (p : Nat) : Option (Char × Nat) :=
  (charsFrom? text (p + 1)).bind fun
    | [] => some ('\\', 1)
    | 'a' :: _ => some ('\x07', 2)
    | 'b' :: _ => some ('\x08', 2)
    | 'f' :: _ => some ('\x0c', 2)
    | 'n' :: _ => some ('\n', 2)
    | 'r' :: _ => some ('\r', 2)
    | 't' :: _ => some ('\t', 2)
    | 'v' :: _ => some ('\x0b', 2)
    | '\n' :: r => (charsFrom? ('\n' :: r) 1).map fun behind =>
      (' ', 2 + ((byteChars behind).takeWhile fun b => b == ' ' || b == '\t').length)
    | 'x' :: r => (charsFrom? ('x' :: r) 1).bind (hex? 'x' 2)
    | 'u' :: r => (charsFrom? ('u' :: r) 1).bind (hex? 'u' 4)
    | c :: r =>
      if isDigitOf 8 c then
        let count := (((byteChars (c :: r)).take 3).takeWhile (isDigitOf 8)).length
        (charsTo? (c :: r) count).map fun ds => (Char.ofNat (digitsValue 8 ds % 256), 1 + count)
      else some (c, 1 + c.utf8Size)

theorem pos_of_hex? {limit : Nat} {d : Char} {used : Nat} (h : hex? c limit cs = some (d, used)) :
    0 < used := by
  rw [hex?] at h
  split at h
  · cases h
    omega
  · obtain ⟨ds, -, h⟩ := Option.map_eq_some_iff.1 h
    cases h
    omega

theorem pos_of_backslash? {d : Char} {used : Nat} (h : backslash? text p = some (d, used)) :
    0 < used := by
  obtain ⟨rest, -, h⟩ := Option.bind_eq_some_iff.1 h
  split at h
  case h_9 =>
    obtain ⟨ds, -, h⟩ := Option.map_eq_some_iff.1 h
    cases h
    omega
  case h_10 | h_11 =>
    obtain ⟨digits, -, h⟩ := Option.bind_eq_some_iff.1 h
    exact pos_of_hex? h
  case h_12 =>
    split at h
    · obtain ⟨ds, -, h⟩ := Option.map_eq_some_iff.1 h
      cases h
      omega
    · cases h
      omega
  all_goals
    cases h
    omega

/-- Digits at the head of characters are one byte each. -/
theorem leadingDigits_cut (base limit : Nat) (cs : List Char) :
    (((byteChars cs).take limit).takeWhile (isDigitOf base)) = leadingDigits base limit cs ∧
      charsTo? cs (leadingDigits base limit cs).length = some (leadingDigits base limit cs) ∧
      ∀ {text p}, StandsAt text p cs → StandsAt text (p + (leadingDigits base limit cs).length)
        (cs.drop (leadingDigits base limit cs).length) := by
  have hcs : leadingDigits base limit cs ++ cs.drop (leadingDigits base limit cs).length = cs :=
    List.prefix_iff_eq_append.1 ((List.takeWhile_prefix _).trans (List.take_prefix limit cs))
  have hwidth : width (leadingDigits base limit cs) = (leadingDigits base limit cs).length :=
    (Ascii.isDigitOf base).width_takeWhile (cs.take limit)
  refine ⟨takeWhile_take_byteChars (.isDigitOf base) limit cs, ?_, fun h => ?_⟩
  · have hto := charsTo?_append (leadingDigits base limit cs)
      (cs.drop (leadingDigits base limit cs).length)
    rwa [hcs, hwidth] at hto
  · rw [← hcs] at h
    exact hwidth ▸ h.append

/-- So are spaces and tabs. -/
theorem blanks_cut (cs : List Char) :
    ((byteChars cs).takeWhile fun b => b == ' ' || b == '\t') =
        (cs.takeWhile fun c => c == ' ' || c == '\t') ∧
      ∀ {text p}, StandsAt text p cs →
        StandsAt text (p + (cs.takeWhile fun c => c == ' ' || c == '\t').length)
          (cs.dropWhile fun c => c == ' ' || c == '\t') := by
  have hblank : Ascii fun c => c == ' ' || c == '\t' := .or (.beq (by decide)) (.beq (by decide))
  refine ⟨takeWhile_byteChars hblank cs, fun h => ?_⟩
  rw [← List.takeWhile_append_dropWhile (p := fun c => c == ' ' || c == '\t') (l := cs)] at h
  exact hblank.width_takeWhile cs ▸ h.append

theorem hex?_eq (c : Char) (limit : Nat) (h : StandsAt text p cs) :
    ∃ used, hex? c limit cs = some ((escapeHex c limit cs).1, 2 + used) ∧
      StandsAt text (p + used) (escapeHex c limit cs).2 := by
  obtain ⟨hcount, hto, hbehind⟩ := leadingDigits_cut 16 limit cs
  rw [hex?, escapeHex, hcount]
  by_cases hds : leadingDigits 16 limit cs = []
  · rw [hds]
    exact ⟨0, rfl, h⟩
  · have hlen : (leadingDigits 16 limit cs).length ≠ 0 := fun h0 =>
      hds (List.length_eq_zero_iff.1 h0)
    refine ⟨(leadingDigits 16 limit cs).length, ?_, ?_⟩
    · simp only [hlen, hto, hds, List.isEmpty_iff, if_false, Option.map_some]
    · simp only [hds, List.isEmpty_iff, if_false]
      exact hbehind h

/-- **A backslash sequence is decoded.** -/
theorem backslash?_eq (h : StandsAt text p ('\\' :: r)) :
    ∃ used, backslash? text p = some ((escape r).1, used) ∧
      StandsAt text (p + used) (escape r).2 := by
  have hr : StandsAt text (p + 1) r := h.next
  rw [backslash?, hr.charsFrom?, Option.bind_some]
  split
  case h_1 => exact ⟨1, rfl, hr⟩
  case h_9 r =>
    obtain ⟨hcount, hbehind⟩ := blanks_cut r
    rw [charsFrom?_one rfl r, Option.map_some, hcount]
    exact ⟨_, rfl, (Nat.add_assoc p 2 _).symm ▸ hbehind hr.next⟩
  case h_10 r =>
    obtain ⟨used, hread, hbehind⟩ := hex?_eq 'x' 2 hr.next
    rw [charsFrom?_one rfl r, Option.bind_some]
    exact ⟨2 + used, hread, (Nat.add_assoc p 2 used).symm ▸ hbehind⟩
  case h_11 r =>
    obtain ⟨used, hread, hbehind⟩ := hex?_eq 'u' 4 hr.next
    rw [charsFrom?_one rfl r, Option.bind_some]
    exact ⟨2 + used, hread, (Nat.add_assoc p 2 used).symm ▸ hbehind⟩
  case h_12 c r _ _ _ _ _ _ _ _ _ _ =>
    have hesc : escape (c :: r) = if (leadingDigits 8 3 (c :: r)).isEmpty then (c, r)
        else (Char.ofNat (digitsValue 8 (leadingDigits 8 3 (c :: r)) % 256),
          (c :: r).drop (leadingDigits 8 3 (c :: r)).length) := by
      rw [escape] <;> assumption
    have hhead : (leadingDigits 8 3 (c :: r)).isEmpty = !isDigitOf 8 c := by
      rw [leadingDigits, List.take_succ_cons, List.takeWhile_cons]
      cases isDigitOf 8 c <;> rfl
    obtain ⟨hcount, hto, hbehind⟩ := leadingDigits_cut 8 3 (c :: r)
    rw [hesc, hhead]
    cases isDigitOf 8 c with
    | false => exact ⟨1 + c.utf8Size, rfl, (Nat.add_assoc p 1 _).symm ▸ hr.next⟩
    | true =>
      refine ⟨1 + (leadingDigits 8 3 (c :: r)).length, ?_, (Nat.add_assoc p 1 _).symm ▸ hbehind hr⟩
      simp only [if_true, hcount, hto, Option.map_some]
      rfl
  all_goals exact ⟨2, rfl, hr.next⟩

/-! ### Braces -/

/-- The position of the brace that closes the open ones, `depth` in number.  The search fails
where it would have to close one more. -/
def closing? (text : List Char) (depth p : Nat) : Option (Option Nat) :=
  match _h : byte? text p with
  | none => some none
  | some b =>
    if b == '\\' then closing? text depth (p + 2)
    else if b == '\x7b' then closing? text (depth + 1) (p + 1)
    else if b == '\x7d' then
      match depth with
      | 0 => none
      | 1 => some (some p)
      | depth + 2 => closing? text (depth + 1) (p + 1)
    else closing? text depth (p + 1)
termination_by width text - p
decreasing_by
  all_goals
    have hp := lt_width_of_byte? _h
    omega

theorem le_of_closing? {depth close : Nat} (h : closing? text depth p = some (some close)) :
    p ≤ close := by
  fun_induction closing? text depth p with
  | case1 | case4 => cases h
  | case5 => cases h; exact Nat.le_refl _
  | case2 depth p b _ _ ih => exact Nat.le_trans (Nat.le_add_right p 2) (ih h)
  | case3 depth p b _ _ _ ih => exact Nat.le_trans (Nat.le_add_right p 1) (ih h)
  | case6 p b _ _ _ _ depth ih => exact Nat.le_trans (Nat.le_add_right p 1) (ih h)
  | case7 depth p b _ _ _ _ ih => exact Nat.le_trans (Nat.le_add_right p 1) (ih h)

theorem closing?_unfold (text : List Char) (depth p : Nat) : closing? text depth p =
    (byte? text p).elim (some none) fun b =>
      if b == '\\' then closing? text depth (p + 2)
      else if b == '\x7b' then closing? text (depth + 1) (p + 1)
      else if b == '\x7d' then
        match depth with
        | 0 => none
        | 1 => some (some p)
        | depth + 2 => closing? text (depth + 1) (p + 1)
      else closing? text depth (p + 1) := by
  rw [closing?.eq_def]
  split
  all_goals
    rename_i h
    rw [h]
    rfl

/-- A byte that is no ASCII is passed over. -/
theorem closing?_of_high {b : Char} {depth : Nat} (h : byte? text p = some b)
    (hb : 0x80 ≤ b.toNat) : closing? text depth p = closing? text depth (p + 1) := by
  have hne {a : Char} (ha : a.toNat < 0x80) : (b == a) = false := Ascii.beq ha b hb
  rw [closing?_unfold, h, Option.elim_some, hne (by decide), hne (by decide), hne (by decide)]
  rfl

theorem closing?_behind {depth : Nat} (h : width text ≤ p) :
    closing? text depth p = some none := by
  rw [closing?_unfold, byte?_eq_none_iff.2 h, Option.elim_none]

theorem closing?_cons (depth : Nat) (h : StandsAt text p (c :: cs)) :
    closing? text depth p =
      if c == '\\' then closing? text depth (p + 2)
      else if c == '\x7b' then closing? text (depth + 1) (p + 1)
      else if c == '\x7d' then
        match depth with
        | 0 => none
        | 1 => some (some p)
        | depth + 2 => closing? text (depth + 1) (p + 1)
      else closing? text depth (p + c.utf8Size) := by
  obtain ⟨b, hb, hsame⟩ := h.byte?_cons
  have hskip : closing? text depth (p + 1) = closing? text depth (p + c.utf8Size) :=
    h.skip fun q b => closing?_of_high
  rw [closing?_unfold, hb, Option.elim_some, hsame _ (.beq (by decide)),
    hsame _ (.beq (by decide)), hsame _ (.beq (by decide)), hskip]

/-- A search that begins inside of a brace never closes too many. -/
theorem closing?_ne_none {depth : Nat} (h : 0 < depth) : closing? text depth p ≠ none := by
  fun_induction closing? text depth p with
  | case1 | case5 => exact Option.some_ne_none _
  | case4 => exact absurd h (Nat.lt_irrefl 0)
  | case2 depth p b _ _ ih => exact ih h
  | case3 depth p b _ _ _ ih => exact ih (Nat.succ_pos depth)
  | case6 p b _ _ _ _ depth ih => exact ih (Nat.succ_pos depth)
  | case7 depth p b _ _ _ _ ih => exact ih h

/-- **The closing brace is found** at the byte behind the text that it closes. -/
theorem closing?_eq {depth : Nat} (h : StandsAt text p cs) :
    closing? text (depth + 1) p = some ((closeBrace depth cs).map fun x => p + width x.1) := by
  have hshift (front : List Char) {n : Nat} (hn : width front = n) (p : Nat)
      (found : Option (List Char × List Char)) :
      found.map (fun x => p + n + width x.1) =
        (found.map fun x => (front ++ x.1, x.2)).map fun x => p + width x.1 := by
    rw [Option.map_map]
    refine Option.map_congr fun x _ => ?_
    rw [Function.comp_apply, width_append, hn, Nat.add_assoc]
  fun_induction closeBrace depth cs generalizing p with
  | case1 => exact closing?_behind (Nat.le_of_eq h.add_width.symm)
  | case2 =>
    have hend : p + 1 = width text := h.add_width
    rw [closing?_cons _ h, if_pos (beq_self_eq_true _)]
    exact closing?_behind (by omega)
  | case3 depth c r ih =>
    -- behind the backslash the search goes on inside of the next character
    have hc : StandsAt text (p + 1) (c :: r) := h.next
    have hskip : closing? text (depth + 1) (p + 2) =
        closing? text (depth + 1) (p + 1 + c.utf8Size) := hc.skip fun q b => closing?_of_high
    rw [closing?_cons _ h, if_pos (beq_self_eq_true _), hskip, ih hc.next, Nat.add_assoc]
    exact congrArg some (hshift ['\\', c] (by rw [width_cons, width_cons]; rfl) p _)
  | case4 depth r ih =>
    rw [closing?_cons _ h, if_neg (by decide), if_pos (beq_self_eq_true _)]
    exact (ih h.next).trans (congrArg some (hshift ['\x7b'] rfl p _))
  | case5 r =>
    rw [closing?_cons _ h, if_neg (by decide), if_neg (by decide), if_pos (beq_self_eq_true _)]
    rfl
  | case6 depth r ih =>
    rw [closing?_cons _ h, if_neg (by decide), if_neg (by decide), if_pos (beq_self_eq_true _)]
    exact (ih h.next).trans (congrArg some (hshift ['\x7d'] rfl p _))
  | case7 depth c r hlast hback hopen hfirst hclose ih =>
    have hne : c ≠ '\\' := by
      rintro rfl
      cases r with
      | nil => exact hlast rfl rfl
      | cons d r => exact hback d r rfl rfl
    have hne' : c ≠ '\x7d' := by
      rintro rfl
      cases depth with
      | zero => exact hfirst rfl rfl
      | succ depth => exact hclose depth rfl rfl
    rw [closing?_cons _ h, if_neg (by simpa using hne), if_neg (by simpa using hopen),
      if_neg (by simpa using hne'), ih h.next]
    exact congrArg some (hshift [c] (by simp) p _)

/-! ### Elements -/

/-- The character at a position; behind the end it is the null character. -/
def charAt? (text : List Char) (p : Nat) : Option Char :=
  (charsFrom? text p).map fun cs => cs.headD '\x00'

/-- The character of an element at a position with byte `b`, and the number of its bytes. -/
def character? (text : List Char) (p : Nat) (b : Char) : Option (Char × Nat) :=
  if b == '\\' then backslash? text p else (charAt? text p).map fun c => (c, c.utf8Size)

theorem pos_of_character? {b d : Char} {used : Nat} (h : character? text p b = some (d, used)) :
    0 < used := by
  rw [character?] at h
  split at h
  · exact pos_of_backslash? h
  · obtain ⟨c, -, h⟩ := Option.map_eq_some_iff.1 h
    cases h
    exact d.utf8Size_pos

/-- The rest of a quoted element, with the position behind its closing quote. -/
def quoted? (text : List Char) (p : Nat) : Option (Option (List Char × Nat)) :=
  match _h : byte? text p with
  | none => some none
  | some b =>
    if b == '"' then some (some ([], p + 1))
    else
      match _hc : character? text p b with
      | none => none
      | some (c, used) =>
        (quoted? text (p + used)).map fun found => found.map fun (cs, q) => (c :: cs, q)
termination_by width text - p
decreasing_by
  have hp := lt_width_of_byte? _h
  have hused := pos_of_character? _hc
  omega

/-- A bare element, with the position of the blank behind it. -/
def bare? (text : List Char) (p : Nat) : Option (List Char × Nat) :=
  match _h : byte? text p with
  | none => some ([], p)
  | some b =>
    if Text.isBlank b then some ([], p)
    else
      match _hc : character? text p b with
      | none => none
      | some (c, used) => (bare? text (p + used)).map fun (cs, q) => (c :: cs, q)
termination_by width text - p
decreasing_by
  have hp := lt_width_of_byte? _h
  have hused := pos_of_character? _hc
  omega

theorem quoted?_unfold (text : List Char) (p : Nat) : quoted? text p =
    (byte? text p).elim (some none) fun b =>
      if b == '"' then some (some ([], p + 1))
      else (character? text p b).bind fun (c, used) =>
        (quoted? text (p + used)).map fun found => found.map fun (cs, q) => (c :: cs, q) := by
  rw [quoted?.eq_def]
  split
  · rename_i h
    rw [h, Option.elim_none]
  · rename_i b h
    rw [h, Option.elim_some]
    split_ifs
    · rfl
    · split
      all_goals
        rename_i hc
        rw [hc]
        rfl

theorem bare?_unfold (text : List Char) (p : Nat) : bare? text p =
    (byte? text p).elim (some ([], p)) fun b =>
      if Text.isBlank b then some ([], p)
      else (character? text p b).bind fun (c, used) =>
        (bare? text (p + used)).map fun (cs, q) => (c :: cs, q) := by
  rw [bare?.eq_def]
  split
  · rename_i h
    rw [h, Option.elim_none]
  · rename_i b h
    rw [h, Option.elim_some]
    split_ifs
    · rfl
    · split
      all_goals
        rename_i hc
        rw [hc]
        rfl

/-- What stands from a position on up to the next blank. -/
def wordAfter? (text : List Char) (p : Nat) : Option (List Char) :=
  (charsFrom? text p).bind fun cs =>
    slice? text p (((byteChars cs).findIdx? Text.isBlank).elim (width text) (p + ·))

theorem le_of_quoted? {found : List Char} {q : Nat}
    (h : quoted? text p = some (some (found, q))) : p ≤ q := by
  fun_induction quoted? text p generalizing found with
  | case1 | case3 => cases h
  | case2 p b _ _ =>
    cases h
    exact Nat.le_succ p
  | case4 p b _ _ c used _ ih =>
    obtain ⟨found, hfound, h⟩ := Option.map_eq_some_iff.1 h
    obtain ⟨⟨cs, q⟩, rfl, h⟩ := Option.map_eq_some_iff.1 h
    cases h
    exact Nat.le_trans (Nat.le_add_right p used) (ih hfound)

theorem le_of_bare? {found : List Char} {q : Nat} (h : bare? text p = some (found, q)) :
    p ≤ q := by
  fun_induction bare? text p generalizing found with
  | case1 | case2 =>
    cases h
    exact Nat.le_refl _
  | case3 => cases h
  | case4 p b _ _ c used _ ih =>
    obtain ⟨⟨cs, q⟩, hfound, h⟩ := Option.map_eq_some_iff.1 h
    cases h
    exact Nat.le_trans (Nat.le_add_right p used) (ih hfound)

theorem lt_of_bare? {b : Char} (hb : byte? text p = some b) (hblank : Text.isBlank b = false)
    {found : List Char} {q : Nat} (h : bare? text p = some (found, q)) : p < q := by
  rw [bare?_unfold, hb, Option.elim_some, hblank, if_neg Bool.false_ne_true] at h
  obtain ⟨⟨c, used⟩, hc, h⟩ := Option.bind_eq_some_iff.1 h
  obtain ⟨⟨cs, q⟩, hfound, h⟩ := Option.map_eq_some_iff.1 h
  cases h
  exact Nat.lt_of_lt_of_le (Nat.lt_add_of_pos_right (pos_of_character? hc)) (le_of_bare? hfound)

/-- A reader by positions has read what a reader of characters has, and stands where that one
has stopped. -/
def Matches {α : Type} (text : List Char) (x : α × Nat) (y : α × List Char) : Prop :=
  x.1 = y.1 ∧ StandsAt text x.2 y.2

theorem Matches.map {α β : Type} {x : α × Nat} {y : α × List Char} (f : α → β)
    (h : Matches text x y) : Matches text (f x.1, x.2) (f y.1, y.2) :=
  ⟨congrArg f h.1, h.2⟩

theorem character?_eq {b : Char} (h : StandsAt text p (c :: r)) (hb : byte? text p = some b) :
    ∃ used, character? text p b = some ((if c == '\\' then escape r else (c, r)).1, used) ∧
      StandsAt text (p + used) (if c == '\\' then escape r else (c, r)).2 := by
  obtain ⟨b', hb', hsame⟩ := h.byte?_cons
  obtain rfl := Option.some.inj (hb'.symm.trans hb)
  rw [character?, hsame _ (.beq (by decide))]
  split
  · rename_i hc
    obtain rfl := eq_of_beq hc
    exact backslash?_eq h
  · rw [charAt?, h.charsFrom?]
    exact ⟨c.utf8Size, rfl, h.next⟩

theorem quoted?_cons (h : StandsAt text p (c :: r)) (hc : c ≠ '"') : ∃ q,
    StandsAt text q (if c == '\\' then escape r else (c, r)).2 ∧
      quoted? text p = (quoted? text q).map fun found => found.map fun (cs, q) =>
        ((if c == '\\' then escape r else (c, r)).1 :: cs, q) := by
  obtain ⟨b, hb, hsame⟩ := h.byte?_cons
  obtain ⟨used, hchar, hbehind⟩ := character?_eq h hb
  refine ⟨p + used, hbehind, ?_⟩
  rw [quoted?_unfold, hb, Option.elim_some, hsame _ (.beq (by decide)),
    if_neg (by simpa using hc), hchar, Option.bind_some]

theorem quoted?_eq (h : StandsAt text p cs) :
    ∃ found, quoted? text p = some found ∧ Option.Rel (Matches text) found (quoted cs) := by
  have hcons {found : Option (List Char × Nat)} {expected : Option (List Char × List Char)}
      (c : Char) (hrel : Option.Rel (Matches text) found expected) : Option.Rel (Matches text)
        (found.map fun x => (c :: x.1, x.2)) (expected.map fun x => (c :: x.1, x.2)) := by
    cases hrel with
    | none => exact .none
    | some hstops => exact .some (hstops.map (c :: ·))
  fun_induction quoted cs generalizing p with
  | case1 => exact ⟨none, by rw [quoted?_unfold, h.byte?_nil, Option.elim_none], .none⟩
  | case2 r =>
    obtain ⟨b, hb, hsame⟩ := h.byte?_cons
    rw [quoted?_unfold, hb, Option.elim_some, hsame _ (.beq (by decide)),
      if_pos (beq_self_eq_true _)]
    exact ⟨_, rfl, .some ⟨rfl, h.next⟩⟩
  | case3 c r hne hc ih =>
    obtain ⟨q, hq, hread⟩ := quoted?_cons h hne
    rw [if_pos hc] at hq hread
    obtain ⟨found, hfound, hrel⟩ := ih hq
    exact ⟨_, hread.trans (congrArg _ hfound), hcons _ hrel⟩
  | case4 c r hne hc ih =>
    obtain ⟨q, hq, hread⟩ := quoted?_cons h hne
    rw [if_neg hc] at hq hread
    obtain ⟨found, hfound, hrel⟩ := ih hq
    exact ⟨_, hread.trans (congrArg _ hfound), hcons c hrel⟩

theorem bare?_cons (h : StandsAt text p (c :: r)) (hc : ¬Text.isBlank c) : ∃ q,
    StandsAt text q (if c == '\\' then escape r else (c, r)).2 ∧
      bare? text p = (bare? text q).map fun (cs, q) =>
        ((if c == '\\' then escape r else (c, r)).1 :: cs, q) := by
  obtain ⟨b, hb, hsame⟩ := h.byte?_cons
  obtain ⟨used, hchar, hbehind⟩ := character?_eq h hb
  refine ⟨p + used, hbehind, ?_⟩
  rw [bare?_unfold, hb, Option.elim_some, hsame _ .isBlank, if_neg hc, hchar, Option.bind_some]

theorem bare?_eq (h : StandsAt text p cs) :
    ∃ found, bare? text p = some found ∧ Matches text found (bare cs) := by
  fun_induction bare cs generalizing p with
  | case1 =>
    exact ⟨([], p), by rw [bare?_unfold, h.byte?_nil, Option.elim_none], rfl, h⟩
  | case2 c r hc =>
    obtain ⟨b, hb, hsame⟩ := h.byte?_cons
    rw [bare?_unfold, hb, Option.elim_some, hsame _ .isBlank, if_pos hc]
    exact ⟨_, rfl, rfl, h⟩
  | case3 c r hne hc ih =>
    obtain ⟨q, hq, hread⟩ := bare?_cons h hne
    rw [if_pos hc] at hq hread
    obtain ⟨found, hfound, hstops⟩ := ih hq
    exact ⟨_, hread.trans (congrArg _ hfound), hstops.map (_ :: ·)⟩
  | case4 c r hne hc ih =>
    obtain ⟨q, hq, hread⟩ := bare?_cons h hne
    rw [if_neg hc] at hq hread
    obtain ⟨found, hfound, hstops⟩ := ih hq
    exact ⟨_, hread.trans (congrArg _ hfound), hstops.map (c :: ·)⟩

/-- The word behind a closing brace or quote is cut out. -/
theorem wordAfter?_eq (h : StandsAt text p cs) :
    wordAfter? text p = some (cs.takeWhile fun c => !Text.isBlank c) := by
  have hcs := List.takeWhile_append_dropWhile (p := fun c => !Text.isBlank c) (l := cs)
  have hfind : ((byteChars cs).findIdx? Text.isBlank).elim (width text) (p + ·) =
      p + width (cs.takeWhile fun c => !Text.isBlank c) := by
    rw [findIdx?_byteChars .isBlank]
    split
    · rfl
    · rename_i hany
      have hall : ∀ c ∈ cs, (!Text.isBlank c) = true := by simpa using hany
      rw [List.takeWhile_eq_self_iff.2 hall, h.add_width]
      rfl
  rw [wordAfter?, h.charsFrom?, Option.bind_some, hfind]
  rw [← hcs] at h
  exact h.slice?

/-! ### Lists -/

/-- What is read behind an element that ends at a position, if it may end there. -/
def boundary? {α : Type} (text : List Char) (p : Nat) (error : String → SplitError)
    (read : Option (Except SplitError α)) : Option (Except SplitError α) :=
  if (byte? text p).all Text.isBlank then read
  else (wordAfter? text p).map fun found => .error (error (String.ofList found))

/-- The elements of a list text from a position on. -/
def split? (text : List Char) (p : Nat) : Option (Except SplitError (List (List Char))) :=
  match _h : byte? text p with
  | none => some (.ok [])
  | some b =>
    if _hb : Text.isBlank b then split? text (p + 1)
    else if b == '\x7b' then
      match _hc : closing? text 0 p with
      | none => none
      | some none => some (.error .unclosedBrace)
      | some (some close) =>
        (slice? text (p + 1) close).bind fun element =>
          boundary? text (close + 1) .afterBrace
            ((split? text (close + 1)).map fun elements => elements.map (element :: ·))
    else if b == '"' then
      match _hq : quoted? text (p + 1) with
      | none => none
      | some none => some (.error .unclosedQuote)
      | some (some (element, q)) =>
        boundary? text q .afterQuote
          ((split? text q).map fun elements => elements.map (element :: ·))
    else
      match _he : bare? text p with
      | none => none
      | some (element, q) => (split? text q).map fun elements => elements.map (element :: ·)
termination_by width text - p
decreasing_by
  · have hp := lt_width_of_byte? _h
    omega
  · have hp := lt_width_of_byte? _h
    have hclose := le_of_closing? _hc
    omega
  · have hp := lt_width_of_byte? _h
    have hq := le_of_quoted? _hq
    omega
  · have hp := lt_width_of_byte? _h
    have hq := lt_of_bare? _h (by simpa using _hb) _he
    omega

theorem boundary?_eq {α : Type} (h : StandsAt text p cs) (error : String → SplitError)
    (read : Option (Except SplitError α)) : boundary? text p error read =
      if atBoundary cs then read else some (.error (error (upToBlank cs))) := by
  rw [boundary?, h.all_byte? .isBlank, wordAfter?_eq h]
  rfl

theorem split?_unfold (text : List Char) (p : Nat) : split? text p =
    (byte? text p).elim (some (.ok [])) fun b =>
      if Text.isBlank b then split? text (p + 1)
      else if b == '\x7b' then (closing? text 0 p).bind fun
        | none => some (.error .unclosedBrace)
        | some close => (slice? text (p + 1) close).bind fun element =>
          boundary? text (close + 1) .afterBrace
            ((split? text (close + 1)).map fun elements => elements.map (element :: ·))
      else if b == '"' then (quoted? text (p + 1)).bind fun
        | none => some (.error .unclosedQuote)
        | some (element, q) => boundary? text q .afterQuote
          ((split? text q).map fun elements => elements.map (element :: ·))
      else (bare? text p).bind fun (element, q) =>
        (split? text q).map fun elements => elements.map (element :: ·) := by
  rw [split?.eq_def]
  split
  · rename_i h
    rw [h, Option.elim_none]
  · rename_i b h
    rw [h, Option.elim_some]
    split_ifs
    · rfl
    all_goals
      split
      all_goals
        rename_i hfound
        rw [hfound]
        rfl

theorem split?_blank (h : StandsAt text p (c :: r)) (hc : Text.isBlank c) :
    StandsAt text (p + 1) r ∧ split? text p = split? text (p + 1) := by
  obtain ⟨b, hb, hsame⟩ := h.byte?_cons
  have hone : c.utf8Size = 1 := utf8Size_of_ascii (Ascii.isBlank.lt hc)
  refine ⟨hone ▸ h.next, ?_⟩
  rw [split?_unfold, hb, Option.elim_some, hsame _ .isBlank, if_pos hc]

/-- The search for the closing brace begins at the opening one. -/
theorem closing?_open (h : StandsAt text p ('\x7b' :: r)) :
    closing? text 0 p = some ((closeBrace 0 r).map fun x => p + 1 + width x.1) := by
  rw [closing?_cons 0 h, if_neg (by decide), if_pos (beq_self_eq_true _)]
  exact closing?_eq h.next

theorem split?_brace (h : StandsAt text p ('\x7b' :: r)) :
    split? text p = (closing? text 0 p).bind fun
      | none => some (.error .unclosedBrace)
      | some close => (slice? text (p + 1) close).bind fun element =>
        boundary? text (close + 1) .afterBrace
          ((split? text (close + 1)).map fun elements => elements.map (element :: ·)) := by
  obtain ⟨b, hb, hsame⟩ := h.byte?_cons
  rw [split?_unfold, hb, Option.elim_some, hsame _ .isBlank, hsame _ (.beq (by decide)),
    if_neg (by decide), if_pos (beq_self_eq_true _)]

theorem split?_quote (h : StandsAt text p ('"' :: r)) :
    split? text p = (quoted? text (p + 1)).bind fun
      | none => some (.error .unclosedQuote)
      | some (element, q) => boundary? text q .afterQuote
        ((split? text q).map fun elements => elements.map (element :: ·)) := by
  obtain ⟨b, hb, hsame⟩ := h.byte?_cons
  rw [split?_unfold, hb, Option.elim_some, hsame _ .isBlank, hsame _ (.beq (by decide)),
    hsame _ (.beq (by decide)), if_neg (by decide), if_neg (by decide),
    if_pos (beq_self_eq_true _)]

theorem split?_unclosed (h : StandsAt text p ('\x7b' :: r)) (hclose : closeBrace 0 r = none) :
    split? text p = some (.error .unclosedBrace) := by
  rw [split?_brace h, closing?_open h, hclose]
  rfl

theorem split?_braced {element rest : List Char} (h : StandsAt text p ('\x7b' :: r))
    (hclose : closeBrace 0 r = some (element, rest)) : ∃ q, StandsAt text q rest ∧
      split? text p = if atBoundary rest then
        (split? text q).map fun elements => elements.map (element :: ·)
      else some (.error (.afterBrace (upToBlank rest))) := by
  have hr : StandsAt text (p + 1) (element ++ '\x7d' :: rest) :=
    append_of_closeBrace hclose ▸ h.next
  have hrest : StandsAt text (p + 1 + width element + 1) rest := hr.append.next
  refine ⟨_, hrest, ?_⟩
  rw [split?_brace h, closing?_open h, hclose, Option.map_some, Option.bind_some]
  dsimp only
  rw [hr.slice?, Option.bind_some, boundary?_eq hrest]

theorem split?_unquoted (h : StandsAt text p ('"' :: r)) (hquoted : quoted r = none) :
    split? text p = some (.error .unclosedQuote) := by
  obtain ⟨found, hfound, hrel⟩ := quoted?_eq (p := p + 1) h.next
  rw [hquoted] at hrel
  cases hrel
  rw [split?_quote h, hfound]
  rfl

theorem split?_quoted {element rest : List Char} (h : StandsAt text p ('"' :: r))
    (hquoted : quoted r = some (element, rest)) : ∃ q, StandsAt text q rest ∧
      split? text p = if atBoundary rest then
        (split? text q).map fun elements => elements.map (element :: ·)
      else some (.error (.afterQuote (upToBlank rest))) := by
  obtain ⟨found, hfound, hrel⟩ := quoted?_eq (p := p + 1) h.next
  rw [hquoted] at hrel
  cases hrel with
  | @some x _ hstops =>
  obtain ⟨rfl, hq⟩ := hstops
  refine ⟨_, hq, ?_⟩
  rw [split?_quote h, hfound, Option.bind_some]
  exact boundary?_eq hq _ _

theorem split?_bare (h : StandsAt text p (c :: r)) (hblank : ¬Text.isBlank c)
    (hbrace : ¬(c == '\x7b') = true) (hquote : ¬(c == '"') = true) : ∃ q,
    StandsAt text q (bare (c :: r)).2 ∧ split? text p =
      (split? text q).map fun elements => elements.map ((bare (c :: r)).1 :: ·) := by
  obtain ⟨b, hb, hsame⟩ := h.byte?_cons
  obtain ⟨⟨element, q⟩, hfound, hsame', hq⟩ := bare?_eq h
  refine ⟨q, hq, ?_⟩
  rw [split?_unfold, hb, Option.elim_some, hsame _ .isBlank, hsame _ (.beq (by decide)),
    hsame _ (.beq (by decide)), if_neg hblank, if_neg hbrace, if_neg hquote, hfound,
    Option.bind_some, ← hsame']

/-- **A list is split.** -/
theorem split?_eq (h : StandsAt text p cs) : split? text p = some (split cs) := by
  fun_induction split cs generalizing p with
  | case1 => rw [split?_unfold, h.byte?_nil, Option.elim_none]
  | case2 c r hc ih =>
    obtain ⟨hr, hread⟩ := split?_blank h hc
    exact hread.trans (ih hr)
  | case3 c r _ hc hclose =>
    obtain rfl := eq_of_beq hc
    exact split?_unclosed h hclose
  | case4 c r _ hc element rest hclose hend ih =>
    obtain rfl := eq_of_beq hc
    obtain ⟨q, hq, hread⟩ := split?_braced h hclose
    rw [hread, if_pos hend, ih hq]
    rfl
  | case5 c r _ hc element rest hclose hend =>
    obtain rfl := eq_of_beq hc
    obtain ⟨q, hq, hread⟩ := split?_braced h hclose
    rw [hread, if_neg hend]
  | case6 c r _ _ hc hquoted =>
    obtain rfl := eq_of_beq hc
    exact split?_unquoted h hquoted
  | case7 c r _ _ hc element rest hquoted hend ih =>
    obtain rfl := eq_of_beq hc
    obtain ⟨q, hq, hread⟩ := split?_quoted h hquoted
    rw [hread, if_pos hend, ih hq]
    rfl
  | case8 c r _ _ hc element rest hquoted hend =>
    obtain rfl := eq_of_beq hc
    obtain ⟨q, hq, hread⟩ := split?_quoted h hquoted
    rw [hread, if_neg hend]
  | case9 c r hblank hbrace hquote element rest hbare ih =>
    obtain ⟨q, hq, hread⟩ := split?_bare h hblank hbrace hquote
    rw [hbare] at hq hread
    rw [hread, ih hq]
    rfl

end Positional
end CommandBridge
