/-
# Blank characters

Two notions of blank are used.  The *separators* of list text and scripts are
six ASCII characters: space, tab, line feed, carriage return, vertical tab and
form feed (`isBlank`).  Trimming uses the Unicode property White_Space
(`isSpace`), which contains the separators and nineteen more characters.
-/

namespace CommandBridge
namespace Text

/-- The six separators of list text and scripts. -/
def isBlank (c : Char) : Bool :=
  c == ' ' || c == '\t' || c == '\n' || c == '\r' || c == '\x0b' || c == '\x0c'

/-- The Unicode property White_Space. -/
def isSpace (c : Char) : Bool :=
  let n := c.toNat
  (9 ≤ n && n ≤ 13) || n == 0x20 || n == 0x85 || n == 0xA0 || n == 0x1680 ||
    (0x2000 ≤ n && n ≤ 0x200A) || n == 0x2028 || n == 0x2029 || n == 0x202F ||
    n == 0x205F || n == 0x3000

/-- Every separator is white space. -/
theorem isSpace_of_isBlank {c : Char} (h : isBlank c = true) : isSpace c = true := by
  simp only [isBlank, Bool.or_eq_true, beq_iff_eq] at h
  rcases h with ((((rfl | rfl) | rfl) | rfl) | rfl) | rfl <;> rfl

/-- Drops white space at both ends. -/
def trimChars (cs : List Char) : List Char :=
  ((cs.dropWhile isSpace).reverse.dropWhile isSpace).reverse

/-- Drops white space at both ends of a text. -/
def trim (s : String) : String :=
  String.ofList (trimChars s.toList)

/-- `s` without `marker` in front, if it starts with it. -/
def dropMarker? (marker : String) (s : String) : Option String :=
  let m := marker.toList
  if m.isPrefixOf s.toList then some (String.ofList (s.toList.drop m.length)) else none

theorem dropMarker?_eq_some_iff {marker s r : String} :
    dropMarker? marker s = some r ↔ s.toList = marker.toList ++ r.toList := by
  rw [dropMarker?, Option.ite_none_right_eq_some, List.isPrefixOf_iff_prefix, Option.some.injEq]
  constructor
  · rintro ⟨h, rfl⟩
    rw [String.toList_ofList]
    exact (List.prefix_iff_eq_append.1 h).symm
  · intro h
    rw [h, List.drop_left, String.ofList_toList]
    exact ⟨List.prefix_append _ _, rfl⟩

theorem dropMarker?_eq_none_iff {marker s : String} :
    dropMarker? marker s = none ↔ ¬marker.toList <+: s.toList := by
  rw [dropMarker?, ite_eq_right_iff, List.isPrefixOf_iff_prefix]
  exact ⟨fun h hm => Option.some_ne_none _ (h hm), fun h hm => absurd hm h⟩

end Text
end CommandBridge
