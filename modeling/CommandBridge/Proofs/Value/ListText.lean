/-
# The text of a list stands for the list

A value may be passed on as its text alone, without the elements that it
carried (`plain`).  Whoever asks that text for its elements gets the texts of
the elements that were there (`getList_plain`), and can ask each of them in
turn; `descend` follows a path of positions down the levels in this way.
-/

import CommandBridge.Proofs.Word.Splitting
import CommandBridge.Value.Access

namespace CommandBridge
namespace Value

/-- The text of a value, without what the value carries. -/
def plain (v : Value) : Value :=
  .text v.str

theorem map_plain_text (xs : List String) : (xs.map Value.text).map plain = xs.map Value.text := by
  simp [Function.comp_def, plain, str]

theorem str_list (elements : List Value) :
    (Value.list elements).str = Word.listText (elements.map str) := by
  rw [str, strs_eq_map]

theorem str_list_text (xs : List String) : (Value.list (xs.map .text)).str = Word.listText xs := by
  have hs : (xs.map Value.text).map str = xs := by simp [Function.comp_def, str]
  rw [str_list, hs]

theorem getList_text (s : String) : (Value.text s).getList =
    ((Word.splitText s).map (·.map Value.text)).mapError .notList := by
  rw [getList, str] <;> simp

theorem getList_text_listText (xs : List String) :
    (Value.text (Word.listText xs)).getList = .ok (xs.map Value.text) := by
  rw [getList_text, Word.splitText_listText]
  rfl

/-- What has no elements of its own is read by its text. -/
theorem getList_eq_text {v : Value} (he : v ≠ .empty) (hl : ∀ elements, v ≠ .list elements) :
    v.getList = (Value.text v.str).getList := by
  rw [getList_text]
  cases v with
  | empty => exact absurd rfl he
  | list elements => exact absurd rfl (hl elements)
  | _ => rfl

/-- What is read from a text are texts already. -/
theorem map_plain_getList_text (s : String) :
    (Value.text s).getList.map (·.map plain) = (Value.text s).getList := by
  rw [getList_text]
  cases Word.splitText s with
  | error e => rfl
  | ok xs => exact congrArg Except.ok (map_plain_text xs)

/-- **A text has the elements of the value that it is the text of**, each as its
text; what is no list fails alike. -/
theorem getList_plain (v : Value) : v.plain.getList = v.getList.map (·.map plain) := by
  by_cases he : v = .empty
  · subst he
    exact getList_text_listText []
  by_cases hl : ∃ elements, v = .list elements
  · obtain ⟨elements, rfl⟩ := hl
    rw [plain, str_list, getList_text_listText, getList, List.map_map]
    rfl
  · rw [getList_eq_text he fun elements h => hl ⟨elements, h⟩, map_plain_getList_text, plain]

/-- The element that a path of positions leads to, none where a list is too
short; each value on the way is read as a list. -/
def descend : List Nat → Value → Except AccessError (Option Value)
  | [], v => .ok (some v)
  | n :: path, v => v.getList.bind fun elements =>
      match elements[n]? with
      | none => .ok none
      | some e => descend path e

theorem descend_plain (path : List Nat) (v : Value) :
    descend path v.plain = (descend path v).map (·.map plain) := by
  induction path generalizing v with
  | nil => rfl
  | cons n path ih =>
    rw [descend, descend, getList_plain]
    cases v.getList with
    | error e => rfl
    | ok elements =>
      simp only [Except.map, Except.bind, List.getElem?_map]
      cases elements[n]? with
      | none => rfl
      | some e => exact ih e

/-- **A list text gives its list back, at every level.**  Splitting the text of a
list of texts gives the texts; the text of any list has the texts of the
elements as its elements; and going down from a text leads at every path to the
text of what the same path leads to from the value itself. -/
theorem listText_faithful :
    (∀ xs : List String, Word.splitText (Value.list (xs.map .text)).str = .ok xs) ∧
      (∀ elements : List Value,
        (Value.list elements).plain.getList = .ok (elements.map plain)) ∧
      ∀ (path : List Nat) (v : Value),
        descend path v.plain = (descend path v).map (·.map plain) := by
  refine ⟨fun xs => ?_, fun elements => ?_, descend_plain⟩
  · rw [str_list_text, Word.splitText_listText]
  · rw [getList_plain, getList]
    rfl

/-- An element of every form: empty, bare, between braces with a list inside,
with every special character escaped, and one that starts with a hash sign. -/
example :
    (Value.list [.text "", .text "a", .list [.int 1, .text "b c"], .text "x\x7b", .text "#"]).str =
      "\x7b\x7d a \x7b1 \x7bb c\x7d\x7d x\\\x7b \x7b#\x7d" := by decide

end Value
end CommandBridge
