/-
# Words without substitution

A word in which no variable and no script is substituted has the same text in
every run, and its text can be read off the tree (`Words.texts`).  Running such
words asks nothing of the interpreter (`runWords_of_texts`).  Among words of any
kind those without substitution (`Words.substituted`) come out as written, and
there are as many values as words (`always_runWords`).
-/

import CommandBridge.Interpreter.Evaluate
import CommandBridge.Proofs.Run.Execution

namespace CommandBridge

/-- The characters of a word, if it is made of nothing else. -/
def Pieces.text? : Pieces → Option (List Char)
  | .done => some []
  | .cons (.char c) rest => rest.text?.map (c :: ·)
  | .cons _ _ => none

/-- The texts of words, one for each; none for a word that is substituted or
breaks a rule. -/
def Words.texts : Words → List (Option String)
  | .done => []
  | .fail _ => [none]
  | .literal s rest => some s :: rest.texts
  | .word pieces rest => pieces.text?.map String.ofList :: rest.texts

/-- Whether a variable, an element or a script is substituted in a word. -/
def Pieces.substituted : Pieces → Bool
  | .done => false
  | .cons (.char _) rest => rest.substituted
  | .cons (.fail _) rest => rest.substituted
  | .cons _ _ => true

/-- Which of the words are substituted. -/
def Words.substituted : Words → List Bool
  | .done => []
  | .fail _ => [false]
  | .literal _ rest => false :: rest.substituted
  | .word pieces rest => pieces.substituted :: rest.substituted

namespace Draft

theorem str_foldl_pushChar (cs : List Char) (d : Draft) :
    (cs.foldl pushChar d).str = d.str ++ String.ofList cs := by
  induction cs generalizing d with
  | nil => simp
  | cons c r ih =>
    rw [List.foldl_cons, ih, pushChar, str]
    rw [String.ofList_cons, ← String.append_assoc, String.push_eq_append]

/-- A word of characters alone is a text. -/
theorem finish_foldl_pushChar (cs : List Char) :
    (cs.foldl pushChar .blank).finish = .text (String.ofList cs) := by
  have hs : ∀ (cs : List Char) (s : String), ∃ s', cs.foldl pushChar (.text s) = .text s' := by
    intro cs
    induction cs with
    | nil => exact fun s => ⟨s, rfl⟩
    | cons c r ih => exact fun s => ih _
  cases cs with
  | nil => rfl
  | cons c r =>
    have ht := str_foldl_pushChar (c :: r) .blank
    obtain ⟨s', h⟩ := hs r (str .blank |>.push c)
    rw [List.foldl_cons, pushChar, h] at ht ⊢
    simpa [finish, str] using ht

end Draft

namespace Interp

theorem runPieces_of_text? (i : Nat) {pieces : Pieces} {cs : List Char}
    (h : pieces.text? = some cs) (d : Draft) :
    runPieces i pieces d = pure (.ok (cs.foldl Draft.pushChar d)) := by
  fun_induction Pieces.text? pieces generalizing cs d with
  | case1 =>
    obtain rfl := Option.some.inj h
    rw [runPieces]
    rfl
  | case2 c rest ih =>
    obtain ⟨r, hr, rfl⟩ := Option.map_eq_some_iff.1 h
    rw [runPieces, runPiece, pure_bind]
    exact ih hr _
  | case3 => cases h

/-- **Words without substitution are run without asking the interpreter.** -/
theorem runWords_of_texts (i : Nat) {words : Words} {ws : List String}
    (h : words.texts = ws.map some) :
    runWords i words = pure (.ok (ws.map .text)) := by
  fun_induction Words.texts words generalizing ws with
  | case1 =>
    obtain rfl : ws = [] := by simpa using h.symm
    rw [runWords]
    rfl
  | case2 =>
    cases ws <;> simp at h
  | case3 s rest ih =>
    cases ws with
    | nil => simp at h
    | cons t ws =>
      obtain ⟨hs, hr⟩ : s = t ∧ rest.texts = ws.map some := by simpa using h
      subst hs
      rw [runWords, ih hr, pure_bind]
      rfl
  | case4 pieces rest ih =>
    cases ws with
    | nil => simp at h
    | cons t ws =>
      rw [List.map_cons, List.cons.injEq, Option.map_eq_some_iff] at h
      obtain ⟨⟨cs, hp, rfl⟩, h⟩ := h
      rw [runWords, runPieces_of_text? i hp, pure_bind]
      dsimp only
      rw [ih h, pure_bind, Draft.finish_foldl_pushChar]
      rfl

/-! ### Words of any kind -/

theorem always_broken {α : Type} {P : Except Status α → Prop} (i : Nat) (e : ScriptError)
    (h : ∀ status, P (.error status)) : (broken i e : Program (Except Status α)).Always P := by
  intro w
  exact h _

/-- Pieces without substitution that come to an end have appended their
characters. -/
theorem always_runPieces (i : Nat) {pieces : Pieces} (h : pieces.substituted = false) (d : Draft) :
    (runPieces i pieces d).Always fun r =>
      ∀ d', r = .ok d' → ∃ cs, pieces.text? = some cs ∧ d' = cs.foldl Draft.pushChar d := by
  fun_induction Pieces.substituted pieces generalizing d with
  | case1 =>
    rw [runPieces]
    intro d' hd
    exact ⟨[], rfl, (Except.ok.inj hd).symm⟩
  | case2 c rest ih =>
    rw [runPieces, runPiece, pure_bind]
    dsimp only
    refine (ih h (d.pushChar c)).imp fun r hr d' hd => ?_
    obtain ⟨cs, ht, hf⟩ := hr d' hd
    exact ⟨c :: cs, by rw [Pieces.text?, ht]; rfl, hf⟩
  | case3 e rest ih =>
    rw [runPieces, runPiece]
    refine (always_broken (P := fun r => ∃ status, r = .error status) i e fun status =>
      ⟨status, rfl⟩).bind ?_
    rintro _ ⟨status, rfl⟩ d' hd
    cases hd
  | case4 => cases h

/-- There are as many values as marks, and where no substitution is marked the
value has the text that stands there. -/
def AsWritten (marks : List Bool) (texts : List (Option String)) (vs : List Value) : Prop :=
  vs.length = marks.length ∧ ∀ n : Nat, marks[n]? = some false →
    ∃ s, texts[n]? = some (some s) ∧ vs[n]?.map Value.str = some s

theorem AsWritten.cons {marks : List Bool} {texts : List (Option String)} {vs : List Value}
    {mark : Bool} {text : Option String} {v : Value} (hv : mark = false → text = some v.str)
    (h : AsWritten marks texts vs) : AsWritten (mark :: marks) (text :: texts) (v :: vs) := by
  refine ⟨congrArg Nat.succ h.1, ?_⟩
  rintro (_ | n) hn
  · exact ⟨v.str, congrArg some (hv (Option.some.inj hn)), rfl⟩
  · exact h.2 n hn

/-- **As many values as words, and each word without substitution as it is
written**, whatever the interpreter holds and its commands do. -/
theorem always_runWords (i : Nat) (words : Words) :
    (runWords i words).Always fun r =>
      ∀ vs, r = .ok vs → AsWritten words.substituted words.texts vs := by
  fun_induction Words.texts words with
  | case1 =>
    rw [runWords]
    intro vs hv
    obtain rfl := Except.ok.inj hv
    exact ⟨rfl, fun n hn => by cases hn⟩
  | case2 e =>
    rw [runWords]
    refine always_broken i e fun status vs hv => ?_
    cases hv
  | case3 s rest ih =>
    rw [runWords]
    refine ih.bind ?_
    rintro (status | ws) hws vs hv
    · cases hv
    · obtain rfl := Except.ok.inj hv
      exact (hws ws rfl).cons fun _ => by rw [Value.str]
  | case4 pieces rest ih =>
    rw [runWords]
    have hfirst : (runPieces i pieces .blank).Always fun r => ∀ d, r = .ok d →
        pieces.substituted = false → pieces.text?.map String.ofList = some d.finish.str := by
      cases hs : pieces.substituted with
      | true => exact Program.always_of_forall (fun _ _ _ h => by cases h) _
      | false =>
        refine (always_runPieces i hs .blank).imp fun r hr d hd _ => ?_
        obtain ⟨cs, ht, rfl⟩ := hr d hd
        rw [ht, Option.map_some, Draft.finish_foldl_pushChar, Value.str]
    refine hfirst.bind ?_
    rintro (status | d) hd
    · rintro vs hv
      cases hv
    · refine ih.bind ?_
      rintro (status | ws) hws vs hv
      · cases hv
      · obtain rfl := Except.ok.inj hv
        exact (hws ws rfl).cons (hd d rfl)

end Interp
end CommandBridge
