/-
# Appending values to a variable

`lappend` writes its values one after the other behind the text of a variable, each
as a list element.  On a variable without traces, unset or a scalar (`HoldsText`),
this runs through without any call (`runs_write_element`), and the text it ends with
is the old one with the list text of the values behind it (`runs_appendEach`).  How
that text splits is a matter of the old text alone (`lappend_appends`).
-/

import CommandBridge.Builtin.Run
import CommandBridge.Proofs.Interpreter.ListEvaluation
import CommandBridge.Proofs.Word.Appending

namespace CommandBridge

namespace Variables

/-- A whole variable without traces that is unset or a scalar, with its text; unset
it counts as empty. -/
structure HoldsText (vs : Variables) (r : VarRef) (t : String) : Prop where
  whole : r.key = none
  untraced : vs.tracesOn r = []
  read_eq : vs.read r = .error .noSuchVariable ∧ t = "" ∨ ∃ v, vs.read r = .ok v ∧ v.str = t

variable {vs : Variables} {r : VarRef} {t : String}

theorem HoldsText.tracesFor_eq (h : vs.HoldsText r t) (op : Flags) : vs.tracesFor r op = [] := by
  have hu := h.untraced
  unfold tracesOn at hu
  unfold tracesFor
  cases hv : vs[r.name]? with
  | none => rfl
  | some v =>
    simp only [hv, h.whole] at hu ⊢
    rw [hu]
    rfl

/-- The variable that a reference with such a text is to. -/
theorem HoldsText.content (h : vs.HoldsText r t) :
    (vs[r.name]?.getD {}).traces = [] ∧
      ((vs[r.name]?.getD {}).content = .undefined ∧ t = "" ∨
        ∃ v, (vs[r.name]?.getD {}).content = .scalar v ∧ v.str = t) := by
  have hu := h.untraced
  have hr := h.read_eq
  unfold tracesOn at hu
  unfold Variables.read at hr
  cases hv : vs[r.name]? with
  | none =>
    rw [hv] at hr
    simpa using hr
  | some v =>
    simp only [hv, h.whole] at hu hr
    refine ⟨hu, ?_⟩
    rw [Option.getD_some]
    cases hc : v.content with
    | undefined => simpa [hc] using hr
    | scalar old => simpa [hc] using hr
    | array => simp [hc] at hr

/-- What is written is there afterwards, still without traces. -/
theorem HoldsText.store (h : vs.HoldsText r t) (value : Value) (flags : Flags) :
    ∃ old vs', (old.map Value.str).getD "" = t ∧
      vs.store r value flags = .ok (combine old value flags, vs') ∧
      vs'.read r = .ok (combine old value flags) ∧
      vs'.HoldsText r (combine old value flags).str := by
  obtain ⟨htraces, hcontent⟩ := h.content
  have hwritten (new : Value) :
      Variables.read (vs.insert r.name { vs[r.name]?.getD {} with content := .scalar new }) r =
        .ok new ∧
      HoldsText (vs.insert r.name { vs[r.name]?.getD {} with content := .scalar new }) r
        new.str := by
    have hread : Variables.read
        (vs.insert r.name { vs[r.name]?.getD {} with content := .scalar new }) r = .ok new := by
      rw [Variables.read, getElem?_insert_name, if_pos rfl, h.whole]
    refine ⟨hread, h.whole, ?_, .inr ⟨new, hread, rfl⟩⟩
    rw [tracesOn, getElem?_insert_name, if_pos rfl, h.whole]
    exact htraces
  rcases hcontent with ⟨hc, rfl⟩ | ⟨v, hc, rfl⟩
  · refine ⟨none, _, rfl, ?_, hwritten _⟩
    rw [Variables.store, h.whole, hc]
  · refine ⟨some v, _, rfl, ?_, hwritten _⟩
    rw [Variables.store, h.whole, hc]

/-- The text after an element was appended. -/
theorem combine_element (old : Option Value) (value : Value) :
    combine old value Builtin.elementFlags = .text (String.ofList
      (Word.spaced ((old.map Value.str).getD "").toList (Word.quote value.str.toList))) := by
  change Value.text ((old.map Value.str).getD "" ++
    (if ((old.map Value.str).getD "").isEmpty then "" else " ") ++ Word.quoteText value.str) = _
  generalize (old.map Value.str).getD "" = before
  congr 1
  rw [← String.toList_inj, String.toList_append, String.toList_append, String.toList_ofList,
    Word.quoteText, String.toList_ofList]
  by_cases hb : before = ""
  · rw [hb]
    exact (Word.spaced_nil _).symm
  · rw [if_neg (by simpa using hb), Word.spaced_of_ne (by simpa using hb),
      Word.behind_of_ne (Word.quote_ne_nil _), List.append_assoc]
    rfl

end Variables

namespace Interp

variable (handler : Machine.Handler) {i : Nat} {w : World} {r : VarRef} {t : String}

/-- Writing without traces is storing. -/
theorem runs_writeRef (h : (w.interpreter i).vars.HoldsText r t) (value : Value) (flags : Flags) :
    ∃ old w', (old.map Value.str).getD "" = t ∧
      Program.Runs handler (writeRef i r value flags) w
        (some (Variables.combine old value flags)) w' ∧
      (w'.interpreter i).vars.read r = .ok (Variables.combine old value flags) ∧
      (w'.interpreter i).vars.HoldsText r (Variables.combine old value flags).str := by
  obtain ⟨old, vs', hold, hstore, hread, htext⟩ := h.store value flags
  let w' := w.withInterpreter i fun s => { s with vars := vs' }
  have hw' : (w'.interpreter i).vars = vs' := by
    rw [World.interpreter_withInterpreter_self]
  rw [← hw'] at hread htext
  refine ⟨old, w', hold, ?_, hread, htext⟩
  have hs : Program.Runs handler (Interp.store i r value flags) w
      (.ok (Variables.combine old value flags)) w' := by
    rw [Interp.store, Program.update, Program.runs_get_iff, Program.runs_set_iff, hstore]
    exact .done _ _
  refine Program.runs_bind_iff.2 ⟨_, _, hs, ?_⟩
  refine Program.runs_bind_iff.2 ⟨_, _, runs_fireTraces handler (htext.tracesFor_eq _), ?_⟩
  refine runs_interpreter_bind_iff.2 ?_
  rw [hread]
  exact .done _ _

/-- Appending an element to a variable without traces. -/
theorem runs_write_element {name : String}
    (h : (w.interpreter i).vars.HoldsText (VarRef.resolve name none) t) (value : Value) :
    ∃ w', Program.Runs handler (write i name none value Builtin.elementFlags) w (some
        (.text (String.ofList (Word.spaced t.toList (Word.quote value.str.toList))))) w' ∧
      (w'.interpreter i).vars.read (VarRef.resolve name none) =
        .ok (.text (String.ofList (Word.spaced t.toList (Word.quote value.str.toList)))) ∧
      (w'.interpreter i).vars.HoldsText (VarRef.resolve name none)
        (String.ofList (Word.spaced t.toList (Word.quote value.str.toList))) := by
  obtain ⟨old, w', rfl, hrun, hread, htext⟩ := runs_writeRef handler h value Builtin.elementFlags
  rw [Variables.combine_element] at hrun hread htext
  refine ⟨w', ?_, hread, htext⟩
  exact Program.runs_bind_iff.2 ⟨_, _, runs_fireTraces handler (h.tracesFor_eq _), hrun⟩

end Interp

namespace Builtin

variable (handler : Machine.Handler) {i : Nat} {w : World} {t : String}

/-- The world after a command that left the value of a variable as its result. -/
structure Answered (i : Nat) (r : VarRef) (w : World) (v : Value) : Prop where
  read_eq : (w.interpreter i).vars.read r = .ok v
  result_eq : (w.interpreter i).result = v

theorem runs_answer {r : VarRef} {v : Value} (h : (w.interpreter i).vars.read r = .ok v) :
    ∃ w', Program.Runs handler (answer i v) w .ok w' ∧ Answered i r w' v := by
  refine ⟨w.withResult i v, ?_, ?_, ?_⟩
  · exact Program.runs_bind_iff.2 ⟨(), _, Interp.runs_setResult_iff.2 rfl, .done _ _⟩
  · rw [World.interpreter_withResult]
    exact h
  · rw [World.interpreter_withResult]

/-- Elements appended one by one are appended as a list. -/
theorem runs_appendEach {name : String} {values : List Value} {last : Option Value}
    (h : (w.interpreter i).vars.HoldsText (VarRef.resolve name none) t)
    (hlast : values = [] →
      ∃ v, last = some v ∧ (w.interpreter i).vars.read (VarRef.resolve name none) = .ok v) :
    ∃ w' v, Program.Runs handler (appendEach i name elementFlags last values) w .ok w' ∧
      Answered i (VarRef.resolve name none) w' v ∧
      v.str.toList = Word.spaced t.toList (Word.joined (values.map (·.str.toList))) := by
  induction values generalizing w t last with
  | nil =>
    obtain ⟨v, rfl, hread⟩ := hlast rfl
    obtain ⟨w', hrun, hanswered⟩ := runs_answer handler hread
    refine ⟨w', v, hrun, hanswered, ?_⟩
    have hv : v.str = t := by
      rcases h.read_eq with ⟨hr, -⟩ | ⟨u, hr, hu⟩
      · rw [hread] at hr
        cases hr
      · rw [hread] at hr
        cases hr
        exact hu
    rw [hv]
    exact (Word.spaced_nil_right _).symm
  | cons value rest ih =>
    obtain ⟨w₁, hwrite, hread, htext⟩ := Interp.runs_write_element handler h value
    obtain ⟨w', v, hrun, hanswered, hv⟩ := ih htext fun _ => ⟨_, rfl, hread⟩
    refine ⟨w', v, Program.runs_bind_iff.2 ⟨_, _, hwrite, hrun⟩, hanswered, ?_⟩
    rw [hv, String.toList_ofList, Word.spaced_assoc, List.map_cons, Word.joined_cons_spaced]

theorem runs_read {name : String} {v : Value}
    (h : (w.interpreter i).vars.HoldsText (VarRef.resolve name none) t)
    (hread : (w.interpreter i).vars.read (VarRef.resolve name none) = .ok v) (flags : Flags) :
    Program.Runs handler (Interp.read i name none flags) w (some v) w := by
  refine Program.runs_bind_iff.2 ⟨_, _, Interp.runs_fireTraces handler (h.tracesFor_eq _), ?_⟩
  refine Interp.runs_interpreter_bind_iff.2 ?_
  rw [hread]
  exact .done _ _

/-- Without values the variable stays as it is, or is made with an empty text. -/
theorem runs_lappend_nil (command name : Value)
    (h : (w.interpreter i).vars.HoldsText (VarRef.resolve name.str none) t) :
    ∃ w' v, Program.Runs handler (run .lappend i [command, name]) w .ok w' ∧
      Answered i (VarRef.resolve name.str none) w' v ∧ v.str = t := by
  have hexists : ∀ {p q : Program Status} {w' : World},
      Program.Runs handler (if (w.interpreter i).vars.defined (VarRef.resolve name.str none)
        then p else q) w .ok w' →
      Program.Runs handler (do
        if ← Interp.varExists i name.str none then p else q) w .ok w' :=
    fun hp => .get hp
  rcases h.read_eq with ⟨hread, rfl⟩ | ⟨v, hread, rfl⟩
  · obtain ⟨old, w₁, -, hrun, hread', htext⟩ := Interp.runs_writeRef handler h .empty
      .leaveErrorMessage
    obtain ⟨w', hanswer, hanswered⟩ := runs_answer handler hread'
    refine ⟨w', _, hexists ?_, hanswered, rfl⟩
    rw [Variables.defined, hread, if_neg Bool.false_ne_true]
    exact Program.runs_bind_iff.2 ⟨_, _, hrun, hanswer⟩
  · obtain ⟨w', hanswer, hanswered⟩ := runs_answer handler hread
    refine ⟨w', v, hexists ?_, hanswered, rfl⟩
    rw [Variables.defined, hread, if_pos rfl]
    exact Program.runs_bind_iff.2 ⟨_, _, runs_read handler h hread _, hanswer⟩

/-- `lappend` puts the list text of its values behind the text of the variable. -/
theorem runs_lappend (command name : Value)
    (h : (w.interpreter i).vars.HoldsText (VarRef.resolve name.str none) t)
    (values : List Value) :
    ∃ w' v, Program.Runs handler (run .lappend i (command :: name :: values)) w .ok w' ∧
      Answered i (VarRef.resolve name.str none) w' v ∧
      v.str.toList = Word.spaced t.toList (Word.joined (values.map (·.str.toList))) := by
  cases values with
  | nil =>
    obtain ⟨w', v, hrun, hanswered, rfl⟩ := runs_lappend_nil handler command name h
    exact ⟨w', v, hrun, hanswered, (Word.spaced_nil_right _).symm⟩
  | cons value rest => exact runs_appendEach handler h nofun

/-- **`lappend` appends its values as elements, unless the old text is open.**  On a
variable without traces, unset or with a text that splits into some elements, it ends
with `ok` and leaves its new value as the result.  The text of this value splits into
the elements and the texts of the values exactly if there are no values or the old
text does not end inside of a backslash sequence that takes the next space. -/
theorem lappend_appends (command name : Value) {xs : List String}
    (h : (w.interpreter i).vars.HoldsText (VarRef.resolve name.str none) t)
    (hlist : Word.splitText t = .ok xs) (values : List Value) :
    ∃ w' v, (∀ status w'', Program.Runs handler (run .lappend i (command :: name :: values)) w
        status w'' ↔ status = .ok ∧ w'' = w') ∧
      (w'.interpreter i).vars.read (VarRef.resolve name.str none) = .ok v ∧
      (w'.interpreter i).result = v ∧
      (Word.splitText v.str = .ok (xs ++ values.map Value.str) ↔
        values = [] ∨ Word.endsOpen t.toList = false) := by
  obtain ⟨w', v, hrun, hanswered, hv⟩ := runs_lappend handler command name h values
  refine ⟨w', v, fun status w'' => ⟨fun hrun' => hrun.unique hrun', ?_⟩, hanswered.read_eq,
    hanswered.result_eq, ?_⟩
  · rintro ⟨rfl, rfl⟩
    exact hrun
  · have hsplit := Word.split_spaced_iff (Word.splitText_eq_ok_iff.1 hlist)
      (values.map (·.str.toList))
    rw [Word.splitText_eq_ok_iff, hv, List.map_append, List.map_map]
    rw [List.map_eq_nil_iff] at hsplit
    exact hsplit

/-- An interpreter with one variable `x`. -/
def holding (v : Value) : World :=
  { interpreters := Pool.empty.add { vars := (∅ : Variables).insert "x" { content := .scalar v } } }

theorem holding_holdsText (s : String) :
    ((holding (.text s)).interpreter 0).vars.HoldsText (VarRef.resolve "x" none) s := by
  have hr : VarRef.resolve "x" none = ⟨"x", none⟩ := by decide
  have hx : ((holding (.text s)).interpreter 0).vars["x"]? =
      some { content := .scalar (.text s) } :=
    (getElem?_insert_name _ _ _ _).trans (if_pos rfl)
  rw [hr]
  refine ⟨rfl, ?_, .inr ⟨.text s, ?_, rfl⟩⟩
  · rw [Variables.tracesOn, hx]
  · rw [Variables.read, hx]

/-- Braces and blanks in the old text do not matter. -/
theorem lappend_appends_braced :
    ((holding (.text " \x7ba b\x7d ")).interpreter 0).vars.HoldsText (VarRef.resolve "x" none)
        " \x7ba b\x7d " ∧
      Word.splitText " \x7ba b\x7d " = .ok ["a b"] ∧ ∃ w' v,
        Program.Runs Scenario.handle (run .lappend 0 [.text "lappend", .text "x", .text "d e"])
          (holding (.text " \x7ba b\x7d ")) .ok w' ∧
        (w'.interpreter 0).result = v ∧ Word.splitText v.str = .ok ["a b", "d e"] := by
  have htext := holding_holdsText " \x7ba b\x7d "
  have hchars : " \x7ba b\x7d ".toList = [' ', '\x7b', 'a', ' ', 'b', '\x7d', ' '] := rfl
  have hclose : Word.closeBrace 0 ['a', ' ', 'b', '\x7d', ' '] = some (['a', ' ', 'b'], [' ']) :=
    rfl
  have hlist : Word.splitText " \x7ba b\x7d " = .ok ["a b"] := by
    rw [Word.splitText_eq_ok_iff, hchars, Word.split_blank rfl, Word.split_braced hclose rfl,
      Word.split_blank rfl, Word.split]
    rfl
  have hclosed : Word.endsOpen " \x7ba b\x7d ".toList = false := by
    rw [hchars, Word.endsOpen_blank rfl, Word.endsOpen_braced hclose, Word.endsOpen_blank rfl,
      Word.endsOpen]
  obtain ⟨w', v, hrun, -, hresult, hsplit⟩ := lappend_appends Scenario.handle (.text "lappend")
    (.text "x") htext hlist [.text "d e"]
  exact ⟨htext, hlist, w', v, (hrun _ _).2 ⟨rfl, rfl⟩, hresult, hsplit.2 (.inr hclosed)⟩

/-- The space behind a backslash at the end belongs to the old element, and so does
what follows. -/
theorem lappend_behind_backslash : Word.splitText "a\\" = .ok ["a\\"] ∧ ∃ w' v,
    Program.Runs Scenario.handle (run .lappend 0 [.text "lappend", .text "x", .text "b"])
      (holding (.text "a\\")) .ok w' ∧
    (w'.interpreter 0).result = v ∧ Word.splitText v.str = .ok ["a b"] := by
  have hold : Word.bare ['a', '\\'] = (['a', '\\'], []) := by
    rw [Word.bare_cons rfl (by decide), Word.bare_backslash, Word.escape, Word.bare]
  have hnew : Word.bare ['a', '\\', ' ', 'b'] = (['a', ' ', 'b'], []) := by
    rw [Word.bare_cons rfl (by decide), Word.bare_backslash, Word.escape_self (by decide) rfl,
      Word.bare_cons rfl (by decide), Word.bare]
  obtain ⟨w', v, hrun, hanswered, hv⟩ := runs_lappend Scenario.handle (.text "lappend")
    (.text "x") (holding_holdsText "a\\") [.text "b"]
  refine ⟨?_, w', v, hrun, hanswered.result_eq, ?_⟩
  · refine Word.splitText_eq_ok_iff.2 ((Word.split_bare rfl (by decide) (by decide) hold).trans ?_)
    rw [Word.split]
    rfl
  · have hs : v.str = "a\\ b" := String.toList_inj.1 hv
    rw [hs]
    refine Word.splitText_eq_ok_iff.2 ((Word.split_bare rfl (by decide) (by decide) hnew).trans ?_)
    rw [Word.split]
    rfl

end Builtin
end CommandBridge
