/-
# What an access to a variable leaves alone

A variable or element can be written in several ways, which `VarRef.resolve` makes the same
reference of (`VarRef.resolve_whole`, `VarRef.resolve_element`).  Reading, writing and
unsetting go by the reference.  Where nothing is traced they are what the table does:
`Variables.read`, `Variables.store` and `Variables.detach` (`Interp.does_read`,
`Interp.does_write_ok`, `Interp.does_unset_ok`).

Writing a reference gives it the value and keeps the values of all others
(`Variables.WellFormed.framed`); unsetting takes it away, a whole variable with its
elements, and keeps all others (`Variables.read_detach`).  One thing changes besides: a
variable that was not there and is written comes to be a scalar or an array, so that the
references to it which still have no value fail for another reason.
-/

import CommandBridge.Proofs.Interpreter.ListAppending
import CommandBridge.Proofs.Interpreter.TraceTable
import CommandBridge.Proofs.Interpreter.VariableTable

namespace CommandBridge

/-! ### Names -/

namespace VarRef

/-- The reference is to what `r` refers to or to an element of it. -/
def PartOf (r' r : VarRef) : Prop :=
  r' = r ∨ r.key = none ∧ r'.name = r.name

/-- The name has no pair of colons in front and no open parenthesis. -/
structure Plain (name : String) : Prop where
  unmarked : ¬[':', ':'] <+: name.toList
  closed : '(' ∉ name.toList

variable {name : String}

theorem dropMarker?_marked (s : String) : Text.dropMarker? "::" ("::" ++ s) = some s :=
  Text.dropMarker?_eq_some_iff.2 String.toList_append

theorem dropMarker?_unmarked {s : String} (h : ¬[':', ':'] <+: s.toList) :
    Text.dropMarker? "::" s = none :=
  Text.dropMarker?_eq_none_iff.2 h

/-- A pair of colons in front does not matter. -/
theorem resolve_marked {s : String} (h : ¬[':', ':'] <+: s.toList) (key : Option String) :
    resolve ("::" ++ s) key = resolve s key := by
  rw [resolve.eq_def, resolve.eq_def, dropMarker?_marked, dropMarker?_unmarked h]
  rfl

theorem splitKey?_whole (h : '(' ∉ name.toList) : splitKey? name.toList = none := by
  have hall : name.toList.dropWhile (· != '(') = [] :=
    List.dropWhile_eq_nil_iff.2 fun c hc => bne_iff_ne.2 fun h' => h (h' ▸ hc)
  rw [splitKey?, hall]

theorem splitKey?_element {name elem : List Char} (h : '(' ∉ name) :
    splitKey? (name ++ '(' :: (elem ++ [')'])) = some (name, elem) := by
  have hall : ∀ c ∈ name, (c != '(') = true := fun c hc => bne_iff_ne.2 fun h' => h (h' ▸ hc)
  have hdrop : (name ++ '(' :: (elem ++ [')'])).dropWhile (· != '(') = '(' :: (elem ++ [')']) := by
    rw [List.dropWhile_append_of_pos hall]
    rfl
  have htake : (name ++ '(' :: (elem ++ [')'])).takeWhile (· != '(') = name := by
    rw [List.takeWhile_append_of_pos hall]
    exact List.append_nil name
  rw [splitKey?, hdrop, htake]
  dsimp only
  rw [dropParenthesis?, List.getLast?_concat, if_pos rfl, List.dropLast_concat]
  rfl

/-- A variable is written by its name. -/
theorem resolve_whole (h : Plain name) :
    resolve name none = ⟨name, none⟩ ∧ resolve ("::" ++ name) none = ⟨name, none⟩ := by
  have hplain : resolve name none = ⟨name, none⟩ := by
    rw [resolve, dropMarker?_unmarked h.unmarked, Option.getD_none, splitKey?_whole h.closed]
  exact ⟨hplain, (resolve_marked h.unmarked none).trans hplain⟩

/-- An element is written with its key apart or in parentheses. -/
theorem resolve_element (h : Plain name) (elem : String) :
    resolve name (some elem) = ⟨name, some elem⟩ ∧
      resolve ("::" ++ name) (some elem) = ⟨name, some elem⟩ ∧
      resolve (name ++ "(" ++ elem ++ ")") none = ⟨name, some elem⟩ ∧
      resolve ("::" ++ (name ++ "(" ++ elem ++ ")")) none = ⟨name, some elem⟩ := by
  have hapart : resolve name (some elem) = ⟨name, some elem⟩ := by
    rw [resolve, dropMarker?_unmarked h.unmarked, Option.getD_none]
  have hchars : (name ++ "(" ++ elem ++ ")").toList =
      name.toList ++ '(' :: (elem.toList ++ [')']) := by
    simp only [String.toList_append, List.append_assoc]
    rfl
  have hunmarked : ¬[':', ':'] <+: (name ++ "(" ++ elem ++ ")").toList := by
    rw [hchars]
    intro hprefix
    refine h.unmarked ?_
    rcases hname : name.toList with _ | ⟨c, _ | ⟨d, r⟩⟩
    · rw [hname] at hprefix
      cases (List.cons_prefix_cons.1 hprefix).1
    · rw [hname] at hprefix
      cases (List.cons_prefix_cons.1 (List.cons_prefix_cons.1 hprefix).2).1
    · rw [hname] at hprefix
      obtain ⟨rfl, hrest⟩ := List.cons_prefix_cons.1 hprefix
      obtain ⟨rfl, -⟩ := List.cons_prefix_cons.1 hrest
      exact ⟨r, rfl⟩
  have hjoined : resolve (name ++ "(" ++ elem ++ ")") none = ⟨name, some elem⟩ := by
    rw [resolve, dropMarker?_unmarked hunmarked, Option.getD_none, hchars,
      splitKey?_element h.closed]
    simp only [String.ofList_toList]
  exact ⟨hapart, (resolve_marked h.unmarked _).trans hapart, hjoined,
    (resolve_marked hunmarked none).trans hjoined⟩

end VarRef

/-! ### The table -/

/-- What reading a variable or one of its elements gives. -/
def Variable.readAt (v : Variable) (key : Option String) : Except VarError Value :=
  match v.content, key with
  | .scalar value, none => .ok value
  | .scalar _, some _ => .error .notArray
  | .array, none => .error .isArray
  | .array, some key =>
    match (v.elements[key]?).bind (·.value) with
    | some value => .ok value
    | none => .error .noSuchElement
  | .undefined, _ => .error .noSuchVariable

namespace Variable

variable {v : Variable}

theorem readAt_scalar {value : Value} (h : v.content = .scalar value) :
    v.readAt none = .ok value ∧ ∀ key, v.readAt (some key) = .error .notArray := by
  simp only [readAt, h, implies_true, and_self]

/-- In an array, an element reads as its value. -/
theorem readAt_array (h : v.content = .array) : v.readAt none = .error .isArray ∧
    ∀ key, v.readAt (some key) =
      (((v.elements[key]?).bind (·.value)).map .ok).getD (.error .noSuchElement) := by
  refine ⟨by simp only [readAt, h], fun key => ?_⟩
  simp only [readAt, h]
  cases (v.elements[key]?).bind (·.value) <;> rfl

theorem readAt_undefined (h : v.content = .undefined) (key : Option String) :
    v.readAt key = .error .noSuchVariable := by
  simp only [readAt, h]

end Variable

namespace Variables

variable {vs vs' : Variables} {r : VarRef} {value new : Value} {flags : Flags}

theorem read_eq_readAt (hv : vs[r.name]? = some v) : vs.read r = v.readAt r.key := by
  rw [read, hv]
  rfl

theorem read_insert (vs : Variables) (name : String) (v : Variable) (r : VarRef) :
    Variables.read (vs.insert name v) r = if name = r.name then v.readAt r.key else vs.read r := by
  split
  · rename_i hname
    exact read_eq_readAt ((getElem?_insert_name _ _ _ _).trans (if_pos hname))
  · rename_i hname
    rw [read, read, getElem?_insert_name, if_neg hname]

theorem read_erase (vs : Variables) (name : String) (r : VarRef) :
    Variables.read (vs.erase name) r =
      if name = r.name then .error .noSuchVariable else vs.read r := by
  by_cases hname : name = r.name
  · rw [read, getElem?_erase_name, if_pos hname, if_pos hname]
  · rw [read, read, getElem?_erase_name, if_neg hname, if_neg hname]

/-- A variable that is not there reads like a new one. -/
theorem readAt_getD (vs : Variables) (r : VarRef) :
    (vs[r.name]?.getD {}).readAt r.key = vs.read r := by
  cases hv : vs[r.name]? with
  | none =>
    rw [read, hv]
    rfl
  | some v => exact (read_eq_readAt hv).symm

theorem holds_whole (vs : Variables) (name : String) :
    vs.holds ⟨name, none⟩ = (vs[name]?.getD {}).holds none := by
  rw [holds]
  cases vs[name]? <;> rfl

/-- A variable that is not there has no elements. -/
theorem WellFormed.getElem?_of_undefined (h : vs.WellFormed) {name : String}
    (hc : (vs[name]?.getD {}).content = .undefined) (key : String) :
    (vs[name]?.getD {}).elements[key]? = none := by
  refine Option.eq_none_iff_forall_ne_some.2 fun e he => ?_
  have harray := (h.coherent_getD name).isArray he
  rw [Variable.isArray, hc] at harray
  cases harray

/-- The value that is read is the same, or none is; and if the variable was there, then for the
same reason. -/
structure Alike (before after : Except VarError Value) (there : Bool) : Prop where
  toOption_eq : after.toOption = before.toOption
  eq (h : there = true) : after = before

theorem Alike.rfl (a : Except VarError Value) (there : Bool) : Alike a a there :=
  ⟨Eq.refl _, fun _ => Eq.refl _⟩

/-- After writing `new`, what is referred to has this value and all else reads as before. -/
structure Framed (vs vs' : Variables) (r : VarRef) (new : Value) : Prop where
  self : vs'.read r = .ok new
  rest {r' : VarRef} (hne : r' ≠ r) :
    Alike (vs.read r') (vs'.read r') (r'.name != r.name || vs.holds ⟨r.name, none⟩)

/-- A variable is replaced by one that differs in what is referred to. -/
theorem framed_insert {v' : Variable} (hself : v'.readAt r.key = .ok new)
    (hrest : ∀ key, key ≠ r.key → Alike ((vs[r.name]?.getD {}).readAt key) (v'.readAt key)
      ((vs[r.name]?.getD {}).holds none)) :
    Framed vs (vs.insert r.name v') r new where
  self := by rw [read_insert, if_pos rfl, hself]
  rest {r'} hne := by
    obtain ⟨name', key'⟩ := r'
    rw [read_insert]
    by_cases hname : r.name = name'
    · subst hname
      rw [if_pos rfl, bne_self_eq_false, Bool.false_or, holds_whole,
        ← readAt_getD vs ⟨r.name, key'⟩]
      exact hrest key' fun hkey => hne (by rw [hkey])
    · rw [if_neg hname]
      exact .rfl _ _

/-- A variable that is no array is written as a whole. -/
theorem framed_scalar (hkey : r.key = none) (hv : (vs[r.name]?.getD {}).isArray = false)
    (new : Value) :
    Framed vs (vs.insert r.name { vs[r.name]?.getD {} with content := .scalar new }) r new := by
  generalize hold : vs[r.name]?.getD {} = v at hv
  have hnew := Variable.readAt_scalar (v := { v with content := .scalar new }) rfl
  refine framed_insert (by rw [hkey]; exact hnew.1) fun key hne => ?_
  obtain ⟨key, rfl⟩ := Option.ne_none_iff_exists'.1 (hkey ▸ hne)
  rw [hold, hnew.2]
  cases hc : v.content with
  | undefined =>
    rw [Variable.readAt_undefined hc, Variable.holds, hc]
    exact ⟨rfl, fun h => absurd h Bool.false_ne_true⟩
  | scalar old =>
    rw [(Variable.readAt_scalar hc).2]
    exact .rfl _ _
  | array =>
    rw [Variable.isArray, hc] at hv
    cases hv

/-- An element is written.  A variable that was not there has no other elements. -/
theorem WellFormed.framed_element (h : vs.WellFormed) {key : String} (hkey : r.key = some key)
    (hv : ∀ old, (vs[r.name]?.getD {}).content ≠ .scalar old) {e : Element}
    (he : e.value = some new) :
    Framed vs (vs.insert r.name { vs[r.name]?.getD {} with
      content := .array, elements := (vs[r.name]?.getD {}).elements.insert key e }) r new := by
  have hnone : (vs[r.name]?.getD {}).content = .undefined →
      ∀ key, (vs[r.name]?.getD {}).elements[key]? = none := h.getElem?_of_undefined
  generalize hold : vs[r.name]?.getD {} = v at hv hnone
  have hnew := Variable.readAt_array
    (v := { v with content := .array, elements := v.elements.insert key e }) rfl
  refine framed_insert ?_ fun key' hne => ?_
  · rw [hkey, hnew.2, getElem?_insert_name, if_pos rfl, Option.bind_some, he]
    rfl
  · have hother : ∀ k, key' = some k → (v.elements.insert key e)[k]? = v.elements[k]? := by
      rintro k rfl
      rw [getElem?_insert_name, if_neg fun hk => hne (by rw [hkey, hk])]
    rw [hold]
    cases hc : v.content with
    | undefined =>
      rw [Variable.readAt_undefined hc, Variable.holds, hc]
      refine ⟨?_, fun h => absurd h Bool.false_ne_true⟩
      cases key' with
      | none => rw [hnew.1]; rfl
      | some k =>
        rw [hnew.2, hother k rfl, hnone hc]
        rfl
    | scalar old => exact absurd hc (hv old)
    | array =>
      cases key' with
      | none =>
        rw [hnew.1, (Variable.readAt_array hc).1]
        exact .rfl _ _
      | some k =>
        rw [hnew.2, (Variable.readAt_array hc).2, hother k rfl]
        exact .rfl _ _

/-- **Writing sets what it refers to and keeps the values of all other references.**  Where
there is none it keeps the reason too, unless the variable was not there before. -/
theorem WellFormed.framed (h : vs.WellFormed) (hstore : vs.store r value flags = .ok (new, vs')) :
    Framed vs vs' r new := by
  unfold Variables.store at hstore
  dsimp only at hstore
  split at hstore
  case h_1 => cases hstore
  case h_2 hkey hcontent | h_3 hkey hcontent =>
    obtain ⟨rfl, rfl⟩ := Prod.mk.inj (Except.ok.inj hstore)
    exact framed_scalar hkey (by rw [Variable.isArray, hcontent]) _
  case h_4 => cases hstore
  case h_5 key hkey hscalar =>
    obtain ⟨rfl, rfl⟩ := Prod.mk.inj (Except.ok.inj hstore)
    exact h.framed_element hkey (fun old hold => hscalar old hold) rfl

/-- Without the flags for it nothing is appended. -/
theorem combine_plain (happend : flags.contains .appendValue = false)
    (helement : flags.contains .listElement = false) (old : Option Value) :
    combine old value flags = value := by
  rw [combine, happend, helement]
  rfl

theorem store_plain (hstore : vs.store r value flags = .ok (new, vs'))
    (happend : flags.contains .appendValue = false)
    (helement : flags.contains .listElement = false) : new = value := by
  unfold Variables.store at hstore
  dsimp only at hstore
  split at hstore
  case h_1 | h_4 => cases hstore
  case h_2 | h_3 | h_5 =>
    obtain ⟨rfl, -⟩ := Prod.mk.inj (Except.ok.inj hstore)
    exact combine_plain happend helement _

/-- Only a variable of the wrong kind cannot be written. -/
theorem exists_store_error_iff : (∃ e, vs.store r value flags = .error e) ↔
    vs.read r = .error .isArray ∨ vs.read r = .error .notArray := by
  rw [← readAt_getD, store]
  cases hc : (vs[r.name]?.getD {}).content with
  | undefined =>
    rw [Variable.readAt_undefined hc]
    cases r.key <;> simp
  | scalar old =>
    cases r.key with
    | none => simp [Variable.readAt_scalar hc]
    | some key => simp [Variable.readAt_scalar hc]
  | array =>
    cases r.key with
    | none => simp [Variable.readAt_array hc]
    | some key =>
      rw [(Variable.readAt_array hc).2]
      cases ((vs[r.name]?.getD {}).elements[key]?).bind (·.value) <;> simp

/-- **Unsetting takes away what it refers to and keeps all other references.** -/
theorem read_detach {groups : List UnsetGroup} (h : vs.detach r = .ok (groups, vs'))
    (r' : VarRef) :
    (r'.PartOf r → (vs'.read r').toOption = none) ∧ (¬r'.PartOf r → vs'.read r' = vs.read r') := by
  obtain ⟨name, key⟩ := r
  obtain ⟨name', key'⟩ := r'
  unfold detach at h
  dsimp only at h
  split at h
  case h_1 => cases h
  case h_2 v hv =>
    split at h
    case h_1 | h_2 => cases h
    case h_3 k hcontent =>
      split at h
      case h_1 =>
        obtain ⟨-, rfl⟩ := Prod.mk.inj (Except.ok.inj h)
        have hold := Variable.readAt_array hcontent
        have hnew := Variable.readAt_array (v := { v with elements := v.elements.erase k }) hcontent
        rw [read_insert]
        refine ⟨?_, fun hpart => ?_⟩
        · rintro (hself | ⟨hwhole, -⟩)
          · cases hself
            rw [if_pos rfl, hnew.2, getElem?_erase_name, if_pos rfl]
            rfl
          · cases hwhole
        · by_cases hname : name = name'
          · subst hname
            rw [if_pos rfl, read_eq_readAt hv]
            cases key' with
            | none => rw [hnew.1, hold.1]
            | some k' =>
              have hne : k ≠ k' := fun hk => hpart (.inl (by rw [hk]))
              rw [hnew.2, hold.2, getElem?_erase_name, if_neg hne]
          · rw [if_neg hname]
      case h_2 => cases h
    case h_4 =>
      obtain ⟨-, rfl⟩ := Prod.mk.inj (Except.ok.inj h)
      rw [read_erase]
      refine ⟨fun hpart => ?_, fun hpart => ?_⟩
      · have hname : name' = name := hpart.elim (congrArg VarRef.name) And.right
        rw [if_pos hname.symm]
        rfl
      · rw [if_neg fun hname => hpart (.inr ⟨rfl, hname.symm⟩)]

/-- What is there can be unset, and nothing else. -/
theorem WellFormed.exists_detach_iff (h : vs.WellFormed) :
    (∃ p, vs.detach r = .ok p) ↔ vs.holds r = true := by
  refine ⟨fun ⟨p, hp⟩ => (holds_detach hp).1, fun hr => ?_⟩
  unfold Variables.holds at hr
  unfold Variables.detach
  cases hv : vs[r.name]? with
  | none =>
    rw [hv] at hr
    cases hr
  | some v =>
    rw [hv] at hr
    change v.holds r.key = true at hr
    dsimp only
    cases hkey : r.key with
    | none =>
      rw [hkey, Variable.holds] at hr
      cases hc : v.content with
      | undefined =>
        rw [hc] at hr
        cases hr
      | scalar | array => exact ⟨_, rfl⟩
    | some key =>
      rw [hkey, Variable.holds] at hr
      obtain ⟨value, hvalue⟩ := Option.isSome_iff_exists.1 hr
      obtain ⟨e, he, hvalue⟩ := Option.bind_eq_some_iff.1 hvalue
      obtain ⟨_, traces⟩ := e
      obtain rfl : _ = some value := hvalue
      rw [Variable.content_of_isArray ((h _ v hv).isArray he)]
      dsimp only
      rw [he]
      exact ⟨_, rfl⟩

end Variables

/-! ### Programs -/

/-- What a program ends with is determined. -/
theorem Program.Does.unique {α : Type} {p : Program α} {w v v' : World} {a b : α}
    (h : p.Does w (pure a) v) (h' : p.Does w (pure b) v') : b = a ∧ v' = v :=
  have hruns : Program.Runs Scenario.handle p w a v := h.runs
  hruns.unique h'.runs

/-- The world with the message for a failed access, if the flags ask for it. -/
def World.reported (w : World) (i : Nat) (flags : Flags) (verb : String) (r : VarRef)
    (e : VarError) : World :=
  if flags.contains .leaveErrorMessage then
    w.withResult i (.text (Interp.accessMessage verb r e.message))
  else w

/-- Reports leave the variables alone. -/
theorem World.vars_reported (w : World) (i : Nat) (flags : Flags) (verb : String) (r : VarRef)
    (e : VarError) :
    ((w.reported i flags verb r e).interpreter i).vars = (w.interpreter i).vars := by
  rw [reported]
  split
  · rw [interpreter_withResult]
  · rfl

/-- The world with another table of variables. -/
def World.withVars (w : World) (i : Nat) (vs : Variables) : World :=
  w.withInterpreter i fun s => { s with vars := vs }

theorem World.vars_withVars (w : World) (i : Nat) (vs : Variables) :
    ((w.withVars i vs).interpreter i).vars = vs := by
  rw [withVars, interpreter_withInterpreter_self]

theorem World.result_withVars (w : World) (i : Nat) (vs : Variables) :
    ((w.withVars i vs).interpreter i).result = (w.interpreter i).result := by
  rw [withVars, interpreter_withInterpreter_self]

theorem World.withVars_withVars (w : World) (i : Nat) (vs vs' : Variables) :
    (w.withVars i vs).withVars i vs' = w.withVars i vs' :=
  withInterpreter_withInterpreter _ _ _ _

/-- The world after reading. -/
def World.afterRead (w : World) (i : Nat) (flags : Flags) (r : VarRef) : World :=
  match (w.interpreter i).vars.read r with
  | .ok _ => w
  | .error e => w.reported i flags "read" r e

namespace Interp

variable {w : World} {i : Nat}

theorem does_reportAccess (w : World) (i : Nat) (flags : Flags) (verb : String) (r : VarRef)
    (e : VarError) :
    (reportAccess i flags verb r e.message).Does w (pure ()) (w.reported i flags verb r e) := by
  rw [reportAccess, World.reported]
  split
  · exact does_setResult i _ w
  · exact .refl _ _

theorem does_store (w : World) (i : Nat) (r : VarRef) (value : Value) (flags : Flags) :
    (store i r value flags).Does w
      (pure (((w.interpreter i).vars.store r value flags).map Prod.fst))
      (match (w.interpreter i).vars.store r value flags with
        | .error _ => w
        | .ok (_, vs) => w.withVars i vs) := by
  refine (Program.Does.update _ w).trans ?_
  cases (w.interpreter i).vars.store r value flags <;> exact .refl _ _

theorem does_detach (w : World) (i : Nat) (r : VarRef) :
    (detach i r).Does w (pure (((w.interpreter i).vars.detach r).map Prod.fst))
      (match (w.interpreter i).vars.detach r with
        | .error _ => w
        | .ok (_, vs) => w.withVars i vs) := by
  refine (Program.Does.update _ w).trans ?_
  cases (w.interpreter i).vars.detach r <;> exact .refl _ _

/-- A group without traces fires none; what is marked as firing is taken back. -/
theorem does_fireGroup (w : World) (i : Nat) (vs : Variables) (name : String) (extra : Flags)
    {g : UnsetGroup} (hg : g.traces = []) (others : List UnsetGroup) :
    (fireGroup i name extra g others).Does (w.withVars i vs) (pure ()) (w.withVars i vs) := by
  refine (Program.Does.reading _ _ _).trans ?_
  rw [groupTraces, hg, List.filter_nil]
  split
  · exact .refl _ _
  · refine ((Program.Does.modifyInterpreter _ i _).bind _).trans ?_
    refine (Program.Does.modifyInterpreter _ i _).trans ?_
    rw [World.withVars, World.withInterpreter_withInterpreter,
      World.withInterpreter_withInterpreter]
    exact .refl _ _

theorem does_fireUnset (w : World) (i : Nat) (vs : Variables) (name : String) (extra : Flags)
    {groups : List UnsetGroup} (hg : ∀ g ∈ groups, g.traces = []) :
    (fireUnset i name extra groups).Does (w.withVars i vs) (pure ()) (w.withVars i vs) := by
  induction groups with
  | nil => exact .refl _ _
  | cons g groups ih =>
    exact ((does_fireGroup w i vs name extra (hg g List.mem_cons_self) groups).bind _).trans
      (ih fun g' hg' => hg g' (List.mem_cons_of_mem g hg'))

/-- A failed unset changes no variable. -/
theorem does_unset_error {name : String} {key : Option String} {flags : Flags} {e : VarError}
    (hdetach : (w.interpreter i).vars.detach (VarRef.resolve name key) = .error e) :
    (unset i name key flags).Does w (pure .error)
      (w.reported i flags "unset" (VarRef.resolve name key) e) := by
  have hd := does_detach w i (VarRef.resolve name key)
  rw [hdetach] at hd
  exact (hd.bind _).trans ((does_reportAccess w i flags "unset" _ e).bind _)

section Untraced

variable (h : (w.interpreter i).vars.Untraced)
include h

theorem does_fireTraces (r : VarRef) (op flags : Flags) :
    (fireTraces i r op flags).Does w (pure none) w :=
  .of_runs fun handler => runs_fireTraces handler (h.tracesFor_eq r op)

/-- Without traces, reading is looking up in the table. -/
theorem does_read (name : String) (key : Option String) (flags : Flags) :
    (read i name key flags).Does w
      (pure ((w.interpreter i).vars.read (VarRef.resolve name key)).toOption)
      (w.afterRead i flags (VarRef.resolve name key)) := by
  refine ((does_fireTraces h _ _ _).bind _).trans ((Program.Does.reading _ _ w).trans ?_)
  rw [World.afterRead]
  cases (w.interpreter i).vars.read (VarRef.resolve name key) with
  | ok value => exact .refl _ _
  | error e => exact (does_reportAccess w i flags "read" _ e).bind _

/-- The traces before a write: they are those on reading, and fire for appending only. -/
theorem does_write (name : String) (key : Option String) (value : Value) (flags : Flags) :
    (write i name key value flags).Does w
      (writeRef i (VarRef.resolve name key) value flags) w := by
  have hnone := does_fireTraces h (VarRef.resolve name key) .traceReads flags
  rw [write]
  dsimp only
  split
  · exact hnone.bind _
  · exact .refl _ _

/-- A failed write changes no variable. -/
theorem does_write_error {name : String} {key : Option String} {value : Value} {flags : Flags}
    {e : VarError} (hstore : (w.interpreter i).vars.store (VarRef.resolve name key) value flags =
      .error e) :
    (write i name key value flags).Does w (pure none)
      (w.reported i flags "set" (VarRef.resolve name key) e) := by
  have hs := does_store w i (VarRef.resolve name key) value flags
  rw [hstore] at hs
  exact (does_write h name key value flags).trans
    ((hs.bind _).trans ((does_reportAccess w i flags "set" _ e).bind _))

theorem does_write_ok {name : String} {key : Option String} {value new : Value} {flags : Flags}
    {vs : Variables} (hstore : (w.interpreter i).vars.store (VarRef.resolve name key) value flags =
      .ok (new, vs)) (hread : vs.read (VarRef.resolve name key) = .ok new) :
    (write i name key value flags).Does w (pure (some new)) (w.withVars i vs) := by
  have hs := does_store w i (VarRef.resolve name key) value flags
  rw [hstore] at hs
  have hvars := World.vars_withVars w i vs
  have huntraced : ((w.withVars i vs).interpreter i).vars.Untraced := by
    rw [hvars]
    exact h.store hstore
  refine (does_write h name key value flags).trans ((hs.bind _).trans ?_)
  refine ((does_fireTraces huntraced _ _ _).bind _).trans ?_
  refine (Program.Does.reading _ _ _).trans ?_
  dsimp only
  rw [hvars, hread]
  exact .refl _ _

theorem does_unset_ok {name : String} {key : Option String} {flags : Flags}
    {groups : List UnsetGroup} {vs : Variables}
    (hdetach : (w.interpreter i).vars.detach (VarRef.resolve name key) = .ok (groups, vs)) :
    (unset i name key flags).Does w (pure .ok) (w.withVars i vs) := by
  have hd := does_detach w i (VarRef.resolve name key)
  rw [hdetach] at hd
  exact (hd.bind _).trans ((does_fireUnset w i _ _ _ (h.detach hdetach).2).bind _)

end Untraced

/-! ### What is read afterwards -/

/-- Reading gives the value or none, leaves `left` in the result register and changes no
variable. -/
def Reads (i : Nat) (w : World) (name : String) (key : Option String) (flags : Flags)
    (value : Option Value) (left : Value) : Prop :=
  ∃ w', (read i name key flags).Does w (pure value) w' ∧
    (w'.interpreter i).result = left ∧ (w'.interpreter i).vars = (w.interpreter i).vars

/-- What reading leaves in the result register. -/
def leftByRead (result : Value) (flags : Flags) (r : VarRef) : Except VarError Value → Value
  | .ok _ => result
  | .error e =>
    if flags.contains .leaveErrorMessage then .text (accessMessage "read" r e.message) else result

theorem reads (h : (w.interpreter i).vars.Untraced) (name : String) (key : Option String)
    (flags : Flags) :
    Reads i w name key flags ((w.interpreter i).vars.read (VarRef.resolve name key)).toOption
      (leftByRead (w.interpreter i).result flags (VarRef.resolve name key)
        ((w.interpreter i).vars.read (VarRef.resolve name key))) := by
  refine ⟨_, does_read h name key flags, ?_⟩
  rw [World.afterRead]
  cases (w.interpreter i).vars.read (VarRef.resolve name key) with
  | ok value => exact ⟨rfl, rfl⟩
  | error e =>
    refine ⟨?_, World.vars_reported _ _ _ _ _ _⟩
    dsimp only
    rw [leftByRead, World.reported]
    split
    · rw [World.interpreter_withResult]
    · rfl

/-- Reading gives the same in both worlds, the value or none; and if `there` holds, also the
same message. -/
def ReadsAlike (i : Nat) (w w' : World) (name : String) (key : Option String) (flags : Flags)
    (there : Prop) : Prop :=
  ∃ value left left', Reads i w name key flags value left ∧ Reads i w' name key flags value left' ∧
    (there → left' = left)

/-- In `w'` every spelling of the reference reads as `value`, and every other name as in `w`.
Only if the variable was not there, a name that is still without a value may be so for another
reason. -/
structure Written (i : Nat) (w w' : World) (r : VarRef) (value : Value) : Prop where
  self {name : String} {key : Option String} (h : VarRef.resolve name key = r) (flags : Flags) :
    Reads i w' name key flags (some value) (w.interpreter i).result
  rest {name : String} {key : Option String} (h : VarRef.resolve name key ≠ r) (flags : Flags) :
    ReadsAlike i w w' name key flags
      ((VarRef.resolve name key).name ≠ r.name ∨ (w.interpreter i).vars.holds ⟨r.name, none⟩)

/-- In `w'` nothing is left of the reference, and every other name reads as in `w`. -/
structure Gone (i : Nat) (w w' : World) (r : VarRef) : Prop where
  part {name : String} {key : Option String} (h : (VarRef.resolve name key).PartOf r)
    (flags : Flags) : ∃ left, Reads i w' name key flags none left
  rest {name : String} {key : Option String} (h : ¬(VarRef.resolve name key).PartOf r)
    (flags : Flags) : ReadsAlike i w w' name key flags True

section Untraced

variable {vs : Variables} {r : VarRef} {value : Value} {name : String} {key : Option String}

/-- Reading in a world with another table. -/
theorem reads_withVars (w : World) (i : Nat) (hvs : vs.Untraced) (name : String)
    (key : Option String) (flags : Flags) :
    Reads i (w.withVars i vs) name key flags (vs.read (VarRef.resolve name key)).toOption
      (leftByRead (w.interpreter i).result flags (VarRef.resolve name key)
        (vs.read (VarRef.resolve name key))) := by
  have hvars := World.vars_withVars w i vs
  have hreads := reads (hvars.symm ▸ hvs) name key flags
  rwa [hvars, World.result_withVars] at hreads

theorem readsAlike (h : (w.interpreter i).vars.Untraced) (hvs : vs.Untraced) {there : Bool}
    (ha : Variables.Alike ((w.interpreter i).vars.read (VarRef.resolve name key))
      (vs.read (VarRef.resolve name key)) there) (flags : Flags) :
    ReadsAlike i w (w.withVars i vs) name key flags (there = true) := by
  have hafter := reads_withVars w i hvs name key flags
  rw [ha.toOption_eq] at hafter
  exact ⟨_, _, _, reads h name key flags, hafter, fun hthere => by rw [ha.eq hthere]⟩

theorem written (h : (w.interpreter i).vars.Untraced) (hvs : vs.Untraced)
    (hframed : Variables.Framed (w.interpreter i).vars vs r value) :
    Written i w (w.withVars i vs) r value where
  self {name key} hr flags := by
    have hafter := reads_withVars w i hvs name key flags
    rwa [hr, hframed.self] at hafter
  rest {name key} hr flags := by
    have hsame := readsAlike h hvs (hframed.rest hr) flags
    rwa [Bool.or_eq_true, bne_iff_ne] at hsame

theorem gone (h : (w.interpreter i).vars.Untraced) (hvs : vs.Untraced)
    {groups : List UnsetGroup} (hdetach : (w.interpreter i).vars.detach r = .ok (groups, vs)) :
    Gone i w (w.withVars i vs) r where
  part {name key} hr flags := by
    have hafter := reads_withVars w i hvs name key flags
    rw [(Variables.read_detach hdetach _).1 hr] at hafter
    exact ⟨_, hafter⟩
  rest {name key} hr flags := by
    have hsame := (Variables.read_detach hdetach _).2 hr
    have halike : Variables.Alike ((w.interpreter i).vars.read (VarRef.resolve name key))
        (vs.read (VarRef.resolve name key)) true := hsame ▸ .rfl _ _
    obtain ⟨value, left, left', hbefore, hafter, hleft⟩ := readsAlike h hvs halike flags
    exact ⟨value, left, left', hbefore, hafter, fun _ => hleft rfl⟩

end Untraced

/-- **Writing and unsetting leave all other names alone.**  Take well-formed tables, which there
are at every moment of a session (`Machine.Occurs.stable`), and no traces.

Writing comes to an end.  It fails if and only if a whole array or an element of a scalar is
meant, and then it changes no variable.  If it does not fail and does not append, then what is
written reads back under every spelling of the name, and every other name reads as before.

Unsetting comes to an end.  It succeeds if and only if there is something to unset, which is
then gone, an array with its elements, while every other name reads as before.  If it fails,
it changes no variable.

A plain name may have a pair of colons in front, and the key of an element may be written
apart or in parentheses. -/
theorem accesses_framed {w : World} {i : Nat} (hwell : (w.interpreter i).vars.WellFormed)
    (huntraced : (w.interpreter i).vars.Untraced) (name : String) (key : Option String)
    (flags : Flags) :
    (∀ value, ∃ result w', (write i name key value flags).Does w (pure result) w' ∧
      (result = none ↔ (w.interpreter i).vars.read (VarRef.resolve name key) = .error .isArray ∨
        (w.interpreter i).vars.read (VarRef.resolve name key) = .error .notArray) ∧
      (result = none → (w'.interpreter i).vars = (w.interpreter i).vars) ∧
      (result ≠ none → flags.contains .appendValue = false → flags.contains .listElement = false →
        result = some value ∧ Written i w w' (VarRef.resolve name key) value)) ∧
    (∃ status w', (unset i name key flags).Does w (pure status) w' ∧
      (status = .ok ↔ (w.interpreter i).vars.holds (VarRef.resolve name key) = true) ∧
      (status ≠ .ok → (w'.interpreter i).vars = (w.interpreter i).vars) ∧
      (status = .ok → Gone i w w' (VarRef.resolve name key))) ∧
    (VarRef.Plain name → ∀ elem,
      (VarRef.resolve name none = ⟨name, none⟩ ∧
        VarRef.resolve ("::" ++ name) none = ⟨name, none⟩) ∧
      VarRef.resolve name (some elem) = ⟨name, some elem⟩ ∧
      VarRef.resolve ("::" ++ name) (some elem) = ⟨name, some elem⟩ ∧
      VarRef.resolve (name ++ "(" ++ elem ++ ")") none = ⟨name, some elem⟩ ∧
      VarRef.resolve ("::" ++ (name ++ "(" ++ elem ++ ")")) none = ⟨name, some elem⟩) := by
  refine ⟨fun value => ?_, ?_, fun h elem =>
    ⟨VarRef.resolve_whole h, VarRef.resolve_element h elem⟩⟩
  · cases hstore : (w.interpreter i).vars.store (VarRef.resolve name key) value flags with
    | error e =>
      refine ⟨none, _, does_write_error huntraced hstore, iff_of_true rfl ?_,
        fun _ => World.vars_reported _ _ _ _ _ _, fun h => absurd rfl h⟩
      exact Variables.exists_store_error_iff.1 ⟨e, hstore⟩
    | ok p =>
      obtain ⟨new, vs⟩ := p
      have hframed := hwell.framed hstore
      refine ⟨some new, _, does_write_ok huntraced hstore hframed.self, iff_of_false nofun ?_,
        nofun, fun _ happend helement => ?_⟩
      · intro hkind
        obtain ⟨e, he⟩ := Variables.exists_store_error_iff.2 hkind
        exact nomatch hstore.symm.trans he
      · obtain rfl : new = value := Variables.store_plain hstore happend helement
        exact ⟨rfl, written huntraced (huntraced.store hstore) hframed⟩
  · cases hdetach : (w.interpreter i).vars.detach (VarRef.resolve name key) with
    | error e =>
      refine ⟨.error, _, does_unset_error hdetach, iff_of_false nofun fun hr => ?_,
        fun _ => World.vars_reported _ _ _ _ _ _, nofun⟩
      obtain ⟨p, hp⟩ := hwell.exists_detach_iff.2 hr
      exact nomatch hdetach.symm.trans hp
    | ok p =>
      obtain ⟨groups, vs⟩ := p
      refine ⟨.ok, _, does_unset_ok huntraced hdetach,
        iff_of_true rfl (hwell.exists_detach_iff.1 ⟨_, hdetach⟩), fun h => absurd rfl h,
        fun _ => gone huntraced (huntraced.detach hdetach).1 hdetach⟩

/-- An element of a new array is written while there is a scalar, and the scalar is unset. -/
theorem accesses_framed_holding :
    ((Builtin.holding (.text "old")).interpreter 0).vars.WellFormed ∧
    ((Builtin.holding (.text "old")).interpreter 0).vars.Untraced ∧
    (∃ w', (write 0 "::a(k)" none (.text "new") .none).Does (Builtin.holding (.text "old"))
        (pure (some (.text "new"))) w' ∧
      Reads 0 w' "a" (some "k") .none (some (.text "new")) .empty ∧
      ∃ left, Reads 0 w' "x" none .none (some (.text "old")) left) ∧
    ∃ w', (unset 0 "::x" none .none).Does (Builtin.holding (.text "old")) (pure .ok) w' ∧
      ∃ left, Reads 0 w' "x" none .none none left := by
  have hvars : ((Builtin.holding (.text "old")).interpreter 0).vars =
      (∅ : Variables).insert "x" { content := .scalar (.text "old") } := rfl
  have hwell : ((Builtin.holding (.text "old")).interpreter 0).vars.WellFormed := by
    rw [hvars]
    exact Variables.WellFormed.empty.insert (Variable.coherent_new.scalar rfl _)
  have huntraced : ((Builtin.holding (.text "old")).interpreter 0).vars.Untraced := by
    intro r
    rw [hvars, Variables.tracesOn_insert_same (fun key => ?_) r, Variables.tracesOn_empty]
    rw [Variables.tracesOn_empty]
    exact (Variable.tracesAt_withContent {} _ key).trans (Variable.tracesAt_of_isVacant rfl key)
  have hplain : ∀ name ∈ ["a", "x"], VarRef.Plain name := by
    intro name hname
    rw [List.mem_cons, List.mem_singleton] at hname
    rcases hname with rfl | rfl <;> exact ⟨by decide, by decide⟩
  have ha := VarRef.resolve_element (hplain "a" (by simp)) "k"
  have hx := VarRef.resolve_whole (hplain "x" (by simp))
  have hread : ((Builtin.holding (.text "old")).interpreter 0).vars.read ⟨"x", none⟩ =
      .ok (.text "old") := by
    rw [hvars, Variables.read_insert, if_pos rfl]
    exact (Variable.readAt_scalar rfl).1
  have hmissing : ((Builtin.holding (.text "old")).interpreter 0).vars.read ⟨"a", some "k"⟩ =
      .error .noSuchVariable := by
    rw [hvars, Variables.read_insert, if_neg (by decide), Variables.read,
      Std.ExtTreeMap.getElem?_empty]
  have hholds : ((Builtin.holding (.text "old")).interpreter 0).vars.holds ⟨"x", none⟩ = true := by
    rw [hvars, Variables.holds, getElem?_insert_name, if_pos rfl]
    rfl
  refine ⟨hwell, huntraced, ?_, ?_⟩
  · obtain ⟨result, w', hwrite, hnone, -, hwritten⟩ :=
      (accesses_framed hwell huntraced "::a(k)" none .none).1 (.text "new")
    have hr : VarRef.resolve "::a(k)" none = ⟨"a", some "k"⟩ := ha.2.2.2
    rw [hr, hmissing] at hnone
    obtain ⟨rfl, hw'⟩ := hwritten (fun h => by simpa using hnone.1 h) (by decide) (by decide)
    rw [hr] at hw'
    refine ⟨w', hwrite, hw'.self ha.1 _, ?_⟩
    have hne : VarRef.resolve "x" none ≠ ⟨"a", some "k"⟩ := by
      rw [hx.1]
      decide
    obtain ⟨value, -, left, ⟨_, hbefore, -⟩, hafter, -⟩ := hw'.rest hne .none
    have hold := (does_read huntraced "x" none .none).unique hbefore
    rw [hx.1, hread] at hold
    obtain rfl := hold.1
    exact ⟨left, hafter⟩
  · obtain ⟨status, w', hunset, hok, -, hgone⟩ :=
      (accesses_framed hwell huntraced "::x" none .none).2.1
    have hr : VarRef.resolve "::x" none = ⟨"x", none⟩ := hx.2
    rw [hr] at hok hgone
    obtain rfl := hok.2 hholds
    exact ⟨w', hunset, (hgone rfl).part (.inl hx.1) .none⟩

end Interp
end CommandBridge
