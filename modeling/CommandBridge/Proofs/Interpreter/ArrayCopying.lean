/-
# Copying an array

`array get` gives the keys and values of an array as one list, and `array set` writes such
a list into an array, element by element.  Without traces the two are inverse: what was read
of one array and written under the name of a variable that was not there makes a second array
with the same keys and with values of the same text (`Builtin.array_set_get`).  The list may
be handed on as its text, from which the same keys and texts are read
(`exists_pairs_of_str_eq`).

A key is not a part of a name here, so it may be any text.  The names must not have an open
parenthesis in them: they would be split for some of the accesses and not for others.
-/

import CommandBridge.Proofs.Interpreter.Frame
import Mathlib.Data.List.Sort

namespace CommandBridge

/-- A name without an open parenthesis is a whole variable, with or without a key. -/
theorem VarRef.resolve_closed {name : String} (h : '(' ∉ name.toList) :
    resolve name none = ⟨(resolve name none).name, none⟩ ∧
      ∀ key, resolve name (some key) = ⟨(resolve name none).name, some key⟩ := by
  have hplain : '(' ∉ ((Text.dropMarker? "::" name).getD name).toList := by
    rw [Text.dropMarker?]
    split
    · rw [Option.getD_some, String.toList_ofList]
      exact fun hmem => h (List.mem_of_mem_drop hmem)
    · exact h
  have hwhole : resolve name none = ⟨(Text.dropMarker? "::" name).getD name, none⟩ := by
    rw [resolve, splitKey?_whole hplain]
  rw [hwhole]
  exact ⟨rfl, fun _ => rfl⟩

/-! ### Elements of an array -/

namespace Variables

variable {vs vs' : Variables} {name name' key : String} {value : Value}

/-- The value of an element. -/
def element? (vs : Variables) (name key : String) : Option Value :=
  (vs.read ⟨name, some key⟩).toOption

theorem element?_eq_some_iff :
    vs.element? name key = some value ↔ vs.read ⟨name, some key⟩ = .ok value := by
  rw [element?]
  cases vs.read ⟨name, some key⟩ <;> simp [Except.toOption]

/-- The keys are those of the elements that have a value. -/
theorem WellFormed.mem_keysOf (h : vs.WellFormed) :
    key ∈ vs.keysOf name ↔ (vs.element? name key).isSome = true := by
  rw [element?, keysOf]
  cases hv : vs[name]? with
  | none =>
    rw [read, hv]
    exact iff_of_false List.not_mem_nil Bool.false_ne_true
  | some v =>
    have helements : key ∈ (v.elements.toList.filter (·.2.value.isSome)).map (·.1) ↔
        ((v.elements[key]?).bind (·.value)).isSome = true := by
      simp only [List.mem_map, List.mem_filter, Prod.exists, exists_and_right, exists_eq_right,
        Std.ExtTreeMap.mem_toList_iff_getElem?_eq_some]
      cases v.elements[key]? <;> simp
    rw [read_eq_readAt hv]
    refine helements.trans ?_
    change _ ↔ (v.readAt (some key)).toOption.isSome = true
    cases hc : v.content with
    | array =>
      rw [(Variable.readAt_array hc).2]
      cases (v.elements[key]?).bind (·.value) <;> rfl
    | undefined | scalar =>
      have hnone : v.elements[key]? = none := by
        refine Option.eq_none_iff_forall_ne_some.2 fun e he => ?_
        have harray := (h name v hv).isArray he
        rw [Variable.isArray, hc] at harray
        cases harray
      rw [hnone, Variable.readAt.eq_def, hc]
      exact iff_of_false Bool.false_ne_true Bool.false_ne_true

theorem keysOf_pairwise (vs : Variables) (name : String) :
    (vs.keysOf name).Pairwise fun a b => compare a b = .lt := by
  rw [keysOf]
  split
  · exact .nil
  · exact List.pairwise_map.2 (Std.ExtTreeMap.ordered_keys_toList.filter _)

/-- Arrays with elements under the same keys list them in the same order. -/
theorem WellFormed.keysOf_eq (h : vs.WellFormed) (h' : vs'.WellFormed)
    (hkeys : ∀ key, (vs'.element? name' key).isSome = (vs.element? name key).isSome) :
    vs'.keysOf name' = vs.keysOf name := by
  have hirrefl : Std.Irrefl fun a b : String => compare a b = .lt :=
    ⟨fun a ha => nomatch ha.symm.trans Std.ReflCmp.compare_self⟩
  have hantisymm : Std.Antisymm fun a b : String => compare a b = .lt :=
    ⟨fun a b hab hba => nomatch hba.symm.trans (Std.OrientedCmp.gt_of_lt hab)⟩
  refine (keysOf_pairwise vs' name').eq_of_mem_iff (keysOf_pairwise vs name) fun key => ?_
  rw [h.mem_keysOf, h'.mem_keysOf, hkeys]

/-- The keys of an array with their values. -/
def entries (vs : Variables) (name : String) : List (Value × Value) :=
  (vs.keysOf name).filterMap fun key => (vs.element? name key).map fun value => (.text key, value)

theorem WellFormed.mem_entries (h : vs.WellFormed) {p : Value × Value} :
    p ∈ vs.entries name ↔ ∃ key, p.1 = .text key ∧ vs.element? name key = some p.2 := by
  obtain ⟨k, v⟩ := p
  rw [entries, List.mem_filterMap]
  constructor
  · rintro ⟨key, -, hkey⟩
    obtain ⟨value, hvalue, hp⟩ := Option.map_eq_some_iff.1 hkey
    obtain ⟨rfl, rfl⟩ := Prod.mk.inj hp
    exact ⟨key, rfl, hvalue⟩
  · rintro ⟨key, rfl, hvalue⟩
    refine ⟨key, h.mem_keysOf.2 (Option.isSome_of_eq_some hvalue), ?_⟩
    rw [hvalue]
    rfl

/-- What is not there has no elements and is no scalar. -/
theorem not_holds (h : vs.holds ⟨name, none⟩ = false) :
    (vs[name]?.getD {}).content = .undefined ∧ ∀ key, vs.element? name key = none := by
  have hcontent : (vs[name]?.getD {}).content = .undefined := by
    rw [holds_whole, Variable.holds] at h
    split at h
    · assumption
    · cases h
  refine ⟨hcontent, fun key => ?_⟩
  rw [element?, ← readAt_getD, Variable.readAt_undefined hcontent]
  rfl

/-- Each key is there once. -/
theorem WellFormed.nodup_entries (h : vs.WellFormed) (name : String) :
    ((vs.entries name).map (·.1.str)).Nodup := by
  have hkeys : (vs.entries name).map (·.1.str) = vs.keysOf name := by
    rw [entries, List.map_filterMap]
    refine (List.filterMap_congr (g := some) fun key hkey => ?_).trans List.filterMap_some
    obtain ⟨value, hvalue⟩ := Option.isSome_iff_exists.1 (h.mem_keysOf.1 hkey)
    rw [hvalue]
    rfl
  rw [hkeys]
  refine (keysOf_pairwise vs name).imp fun {a b} hab heq => ?_
  subst heq
  exact nomatch hab.symm.trans Std.ReflCmp.compare_self

/-! ### Writing elements -/

/-- The entries have been written to elements of a variable. -/
structure Filled (vs vs' : Variables) (name : String) (entries : List (Value × Value)) : Prop where
  wellFormed : vs'.WellFormed
  untraced : vs'.Untraced
  written : ∀ p ∈ entries, vs'.element? name p.1.str = some p.2
  kept : ∀ key, (∀ p ∈ entries, p.1.str ≠ key) → vs'.element? name key = vs.element? name key
  rest : ∀ r, r.name ≠ name → vs'.read r = vs.read r

/-- One entry is written before the others, under a key that they do not have. -/
theorem Filled.cons {p : Value × Value} {entries : List (Value × Value)} {vs₁ : Variables}
    (h : vs₁.Filled vs' name entries) (hp : vs.Framed vs₁ ⟨name, some p.1.str⟩ p.2)
    (hfresh : ∀ p' ∈ entries, p'.1.str ≠ p.1.str) : vs.Filled vs' name (p :: entries) where
  wellFormed := h.wellFormed
  untraced := h.untraced
  written p' hp' := by
    rcases List.mem_cons.1 hp' with rfl | hp'
    · exact (h.kept _ hfresh).trans (element?_eq_some_iff.2 hp.self)
    · exact h.written p' hp'
  kept key hkey := by
    have hne := hkey p List.mem_cons_self
    refine (h.kept key fun p' hp' => hkey p' (List.mem_cons_of_mem p hp')).trans ?_
    exact (hp.rest fun heq => hne (Option.some.inj (congrArg VarRef.key heq)).symm).toOption_eq
  rest r hr := by
    have hne : r ≠ ⟨name, some p.1.str⟩ := fun heq => hr (congrArg VarRef.name heq)
    refine (h.rest r hr).trans ((hp.rest hne).eq ?_)
    rw [Bool.or_eq_true, bne_iff_ne]
    exact .inl hr

/-- An element of anything but a scalar can be written. -/
theorem exists_store_element (hv : ∀ old, (vs[name]?.getD {}).content ≠ .scalar old)
    (key : String) (value : Value) {flags : Flags} (happend : flags.contains .appendValue = false)
    (helement : flags.contains .listElement = false) :
    ∃ vs', vs.store ⟨name, some key⟩ value flags = .ok (value, vs') ∧
      ∀ old, (vs'[name]?.getD {}).content ≠ .scalar old := by
  rw [store]
  cases hc : (vs[name]?.getD {}).content with
  | scalar old => exact absurd hc (hv old)
  | undefined | array =>
    dsimp only
    rw [combine_plain happend helement]
    refine ⟨_, rfl, fun old => ?_⟩
    rw [getElem?_insert_name, if_pos rfl]
    exact fun h => by cases h

end Variables

/-- A failed read without flags is not reported. -/
theorem World.afterRead_none (w : World) (i : Nat) (r : VarRef) : w.afterRead i .none r = w := by
  rw [afterRead]
  split
  · rfl
  · rw [reported, if_neg (by decide)]

theorem World.vars_withResult (w : World) (i : Nat) (v : Value) :
    ((w.withResult i v).interpreter i).vars = (w.interpreter i).vars := by
  rw [interpreter_withResult]

/-- Before a result is put in place the one before it does not matter. -/
theorem World.withResult_withVars_withResult (w : World) (i : Nat) (vs : Variables) (u v : Value) :
    ((w.withResult i u).withVars i vs).withResult i v = (w.withVars i vs).withResult i v := by
  rw [withVars, withVars, withResult, withResult, withResult, withInterpreter_withInterpreter,
    withInterpreter_withInterpreter, withInterpreter_withInterpreter]

theorem World.withResult_withVars_self (w : World) (i : Nat) (v : Value) :
    (w.withVars i (w.interpreter i).vars).withResult i v = w.withResult i v := by
  rw [withVars, withResult, withInterpreter_withInterpreter]
  rfl

namespace Builtin

open Variables

variable {w : World} {i : Nat} {name plain : String}

/-- Keys and values in turn. -/
def flat (entries : List (Value × Value)) : List Value :=
  entries.flatMap fun p => [p.1, p.2]

/-- Values with the texts of entries are entries of these texts. -/
theorem exists_flat_of_map_plain {elements : List Value} {entries : List (Value × Value)}
    (h : elements.map Value.plain = (flat entries).map Value.plain) :
    ∃ entries', elements = flat entries' ∧
      entries'.map (fun p => (p.1.str, p.2.str)) = entries.map fun p => (p.1.str, p.2.str) := by
  induction entries generalizing elements with
  | nil => exact ⟨[], List.map_eq_nil_iff.1 h, rfl⟩
  | cons p entries ih =>
    obtain ⟨key, rest, rfl, hkey, hrest⟩ := List.map_eq_cons_iff.1 h
    obtain ⟨value, rest, rfl, hvalue, hrest⟩ := List.map_eq_cons_iff.1 hrest
    obtain ⟨entries', rfl, htexts⟩ := ih hrest
    refine ⟨(key, value) :: entries', rfl, ?_⟩
    rw [List.map_cons, List.map_cons, htexts, Value.text.inj hkey, Value.text.inj hvalue]

/-- **The text of a list of entries is read as entries of the same texts.** -/
theorem exists_pairs_of_str_eq {passed : Value} {entries : List (Value × Value)}
    (h : passed.str = (Value.list (flat entries)).str) :
    ∃ entries', passed.getList = .ok (flat entries') ∧
      entries'.map (fun p => (p.1.str, p.2.str)) = entries.map fun p => (p.1.str, p.2.str) := by
  have hplain : passed.plain = (Value.list (flat entries)).plain := congrArg Value.text h
  have hread := Value.getList_plain passed
  rw [hplain, Value.getList_plain] at hread
  cases hpassed : passed.getList with
  | error e =>
    rw [hpassed] at hread
    cases hread
  | ok elements =>
    rw [hpassed] at hread
    obtain ⟨entries', rfl, htexts⟩ := exists_flat_of_map_plain (Except.ok.inj hread).symm
    exact ⟨entries', rfl, htexts⟩

/-- Reading the elements changes nothing. -/
theorem does_arrayPairs (h : (w.interpreter i).vars.Untraced)
    (hname : ∀ key, VarRef.resolve name (some key) = ⟨plain, some key⟩) (keys : List String) :
    (arrayPairs i name keys).Does w
      (pure (flat (keys.filterMap fun key =>
        ((w.interpreter i).vars.element? plain key).map fun value => (.text key, value)))) w := by
  induction keys with
  | nil => exact .refl _ _
  | cons key keys ih =>
    have hread := Interp.does_read h name (some key) .none
    rw [hname, World.afterRead_none] at hread
    refine (hread.bind _).trans ((ih.bind _).trans ?_)
    rw [List.filterMap_cons, element?]
    cases ((w.interpreter i).vars.read ⟨plain, some key⟩).toOption <;> exact .refl _ _

/-- Writing the entries one by one. -/
theorem does_arrayWrite (hwell : (w.interpreter i).vars.WellFormed)
    (huntraced : (w.interpreter i).vars.Untraced)
    (hname : ∀ key, VarRef.resolve name (some key) = ⟨plain, some key⟩)
    (hv : ∀ old, ((w.interpreter i).vars[plain]?.getD {}).content ≠ .scalar old)
    {entries : List (Value × Value)} (hkeys : (entries.map (·.1.str)).Nodup) :
    ∃ vs, (arrayWrite i name (flat entries)).Does w (pure .ok)
        ((w.withVars i vs).withResult i .empty) ∧
      (w.interpreter i).vars.Filled vs plain entries := by
  induction entries generalizing w with
  | nil =>
    refine ⟨(w.interpreter i).vars, ?_, hwell, huntraced, by simp, fun _ _ => rfl,
      fun _ _ => rfl⟩
    rw [World.withResult_withVars_self]
    exact (Interp.does_setResult i .empty w).bind _
  | cons p entries ih =>
    obtain ⟨hfresh, hkeys⟩ := List.nodup_cons.1 hkeys
    have hflags : Flags.leaveErrorMessage.contains .appendValue = false ∧
        Flags.leaveErrorMessage.contains .listElement = false := by decide
    obtain ⟨vs₁, hstore, hv₁⟩ := exists_store_element hv p.1.str p.2 hflags.1 hflags.2
    have hframed := hwell.framed hstore
    have hvars := World.vars_withVars w i vs₁
    have hwell₁ := hwell.store hstore
    have huntraced₁ := huntraced.store hstore
    rw [← hvars] at hwell₁ huntraced₁ hv₁
    obtain ⟨vs, hrun, hfilled⟩ := ih hwell₁ huntraced₁ hv₁ hkeys
    rw [World.withVars_withVars] at hrun
    rw [hvars] at hfilled
    have hread := hframed.self
    rw [← hname p.1.str] at hstore hread
    have hwrite := Interp.does_write_ok huntraced hstore hread
    refine ⟨vs, (hwrite.bind _).trans hrun, hfilled.cons hframed fun p' hp' heq => ?_⟩
    exact hfresh (List.mem_map.2 ⟨p', hp', heq⟩)

/-! ### The commands -/

/-- What can be asked about an array. -/
inductive ArrayQuery where
  | size
  | names (pattern : Option Value)
  | get

namespace ArrayQuery

/-- The words that ask. -/
def words (command name : Value) : ArrayQuery → List Value
  | .size => [command, .text "size", name]
  | .names pattern => command :: .text "names" :: name :: pattern.toList
  | .get => [command, .text "get", name]

/-- The answer for a variable of the table. -/
def answer (vs : Variables) (name : String) : ArrayQuery → Value
  | .size => .int (Int64.ofNat (vs.keysOf name).length)
  | .names pattern => fittingNames pattern (vs.keysOf name)
  | .get => .list (flat (vs.entries name))

end ArrayQuery

section Untraced

variable (h : (w.interpreter i).vars.Untraced)
include h

theorem does_runArray (command option name : Value) (args : List Value) :
    (run .array i (command :: option :: name :: args)).Does w
      (arrayCommand i option.str name.str args) w :=
  (Interp.does_fireTraces h _ _ _).bind _

/-- Questions are answered from the table and change nothing. -/
theorem does_query (command : Value) {name : Value} (hname : '(' ∉ name.str.toList)
    (q : ArrayQuery) :
    (run .array i (q.words command name)).Does w (pure .ok)
      (w.withResult i
        (q.answer (w.interpreter i).vars (VarRef.resolve name.str none).name)) := by
  cases q with
  | size =>
    refine (does_runArray h _ _ _ _).trans ((Program.Does.reading _ _ w).trans ?_)
    exact does_answer i _ w
  | names pattern =>
    refine (does_runArray h _ _ _ _).trans ((Program.Does.reading _ _ w).trans ?_)
    cases pattern <;> exact does_answer i _ w
  | get =>
    refine (does_runArray h _ _ _ _).trans ((Program.Does.reading _ _ w).trans ?_)
    exact ((does_arrayPairs h (VarRef.resolve_closed hname).2 _).bind _).trans (does_answer i _ w)

end Untraced

theorem length_flat (entries : List (Value × Value)) :
    (flat entries).length = 2 * entries.length := by
  induction entries with
  | nil => rfl
  | cons p entries ih =>
    rw [flat, List.flatMap_cons, List.length_append, List.length_cons, ← flat, ih]
    exact Nat.add_comm 2 _

/-- Entries are written as they are read from the list. -/
theorem does_arraySet (h : (w.interpreter i).vars.Untraced) (command name : Value) {passed : Value}
    {entries : List (Value × Value)} (hread : passed.getList = .ok (flat entries)) :
    (run .array i [command, .text "set", name, passed]).Does w
      (arrayWrite i name.str (flat entries)) w := by
  refine (does_runArray h _ _ _ _).trans ((Program.Does.reading _ _ w).trans ?_)
  change (withRead i passed.getList _).Does _ _ _
  rw [hread, withRead, if_neg (by rw [length_flat]; omega)]
  exact .refl _ _

/-! ### Copies -/

/-- A variable of the second table has the elements of one of the first, with values of the
same texts. -/
structure SameTexts (vs vs' : Variables) (name name' : String) : Prop where
  keys : vs'.keysOf name' = vs.keysOf name
  texts : ∀ key, (vs'.element? name' key).map Value.str = (vs.element? name key).map Value.str

/-- One variable has become a copy of another one; the rest has not changed. -/
structure Copied (vs vs' : Variables) (name name' : String) : Prop
    extends SameTexts vs vs' name name' where
  rest : ∀ r, r.name ≠ name' → vs'.read r = vs.read r

theorem sameTexts {vs vs' : Variables} {name' : String} (h : vs.WellFormed) (h' : vs'.WellFormed)
    (htexts : ∀ key, (vs'.element? name' key).map Value.str =
      (vs.element? name key).map Value.str) : SameTexts vs vs' name name' where
  keys := h.keysOf_eq h' fun key => by
    have hsome := congrArg Option.isSome (htexts key)
    rwa [Option.isSome_map, Option.isSome_map] at hsome
  texts := htexts

/-- Entries of the same texts make a copy of a variable that was not there. -/
theorem copied_of_filled {vs vs' : Variables} {name' : String} (hwell : vs.WellFormed)
    {entries : List (Value × Value)} (hfilled : vs.Filled vs' name' entries)
    (hnew : ∀ key, vs.element? name' key = none)
    (htexts : entries.map (fun p => (p.1.str, p.2.str)) =
      (vs.entries name).map fun p => (p.1.str, p.2.str)) : Copied vs vs' name name' := by
  refine ⟨sameTexts hwell hfilled.wellFormed fun key => ?_, hfilled.rest⟩
  cases hkey : vs.element? name key with
  | some value =>
    have hmem : (key, value.str) ∈ entries.map fun p => (p.1.str, p.2.str) := by
      rw [htexts]
      exact List.mem_map.2 ⟨(.text key, value), hwell.mem_entries.2 ⟨key, rfl, hkey⟩, rfl⟩
    obtain ⟨p, hp, htext⟩ := List.mem_map.1 hmem
    obtain ⟨rfl, hvalue⟩ := Prod.mk.inj htext
    rw [hfilled.written p hp, Option.map_some, Option.map_some, hvalue]
  | none =>
    rw [hfilled.kept key fun p hp heq => ?_, hnew]
    have hmem : (p.1.str, p.2.str) ∈ (vs.entries name).map fun p => (p.1.str, p.2.str) :=
      htexts ▸ List.mem_map.2 ⟨p, hp, rfl⟩
    obtain ⟨p', hp', htext⟩ := List.mem_map.1 hmem
    obtain ⟨key', hkey', hvalue⟩ := hwell.mem_entries.1 hp'
    have hsame := (Prod.mk.inj htext).1
    rw [hkey', heq] at hsame
    obtain rfl : key' = key := hsame
    exact nomatch hvalue.symm.trans hkey

/-- Questions have answers of the same text. -/
theorem SameTexts.str_answer {vs vs' : Variables} {name' : String}
    (h : SameTexts vs vs' name name') (q : ArrayQuery) :
    (q.answer vs' name').str = (q.answer vs name).str := by
  cases q with
  | size => rw [ArrayQuery.answer, ArrayQuery.answer, h.keys]
  | names pattern => rw [ArrayQuery.answer, ArrayQuery.answer, h.keys]
  | get =>
    rw [ArrayQuery.answer, ArrayQuery.answer, Value.str_list, Value.str_list]
    refine congrArg Word.listText ?_
    rw [flat, flat, List.map_flatMap, List.map_flatMap, entries, entries, h.keys]
    induction vs.keysOf name with
    | nil => rfl
    | cons key keys ih =>
      have htext := h.texts key
      rw [List.filterMap_cons, List.filterMap_cons]
      cases hold : vs.element? name key with
      | none =>
        rw [hold] at htext
        rw [Option.map_eq_none_iff.1 htext]
        exact ih
      | some value =>
        rw [hold] at htext
        obtain ⟨value', hnew, hvalue⟩ := Option.map_eq_some_iff.1 htext
        rw [hnew]
        dsimp only [Option.map_some]
        rw [List.flatMap_cons, List.flatMap_cons, ih, List.map_cons, List.map_cons, hvalue]
        rfl

/-- A table with a variable and a copy of it answers alike for both, and as before. -/
theorem Copied.str_answer_eq {vs vs' : Variables} {name' : String} (h : Copied vs vs' name name')
    (hwell : vs.WellFormed) (hwell' : vs'.WellFormed) (q : ArrayQuery) :
    (q.answer vs' name).str = (q.answer vs name).str := by
  by_cases hname : name = name'
  · subst hname
    exact h.str_answer q
  · refine (sameTexts hwell hwell' fun key => ?_).str_answer q
    rw [element?, element?, h.rest _ hname]

/-- The entries of an array, or their text, are written to a variable that is not there. -/
theorem does_copy (hwell : (w.interpreter i).vars.WellFormed)
    (huntraced : (w.interpreter i).vars.Untraced) (command got : Value) {b passed : Value}
    (hb : '(' ∉ b.str.toList)
    (hunset : (w.interpreter i).vars.holds (VarRef.resolve b.str none) = false)
    (hpassed : passed.str = (ArrayQuery.get.answer (w.interpreter i).vars name).str) :
    ∃ vs, (run .array i [command, .text "set", b, passed]).Does (w.withResult i got) (pure .ok)
        ((w.withVars i vs).withResult i .empty) ∧
      vs.WellFormed ∧ vs.Untraced ∧
      Copied (w.interpreter i).vars vs name (VarRef.resolve b.str none).name := by
  obtain ⟨hwhole, hkeyed⟩ := VarRef.resolve_closed hb
  rw [hwhole] at hunset
  obtain ⟨hcontent, hnew⟩ := not_holds hunset
  obtain ⟨entries, hread, htexts⟩ := exists_pairs_of_str_eq hpassed
  have hnodup : (entries.map (·.1.str)).Nodup := by
    have hkeys := congrArg (List.map Prod.fst) htexts
    rw [List.map_map, List.map_map] at hkeys
    exact hkeys ▸ hwell.nodup_entries _
  have hscalar : ∀ old, ((w.interpreter i).vars[(VarRef.resolve b.str none).name]?.getD
      {}).content ≠ .scalar old := by
    rw [hcontent]
    exact nofun
  have hvars := World.vars_withResult w i got
  rw [← hvars] at huntraced hwell hscalar
  obtain ⟨vs, hwrite, hfilled⟩ := does_arrayWrite hwell huntraced hkeyed hscalar hnodup
  rw [World.withResult_withVars_withResult] at hwrite
  rw [hvars] at hfilled hwell
  exact ⟨vs, (does_arraySet huntraced command b hread).trans hwrite, hfilled.wellFormed,
    hfilled.untraced, copied_of_filled hwell hfilled hnew htexts⟩

/-- **Writing what was read makes a copy.**  Take a well-formed table, which there is at every
moment of a session (`Machine.Occurs.stable`), and no traces.  `array get` succeeds and changes
nothing but the result.  `array set`, with the name of a variable that is not there and with
what `array get` gave or any other value of the same text, succeeds and changes nothing but
this variable and the result: it then has the keys of the array and values of the same texts.
`array get`, `array names`, with a pattern or without, and `array size` answer for it with the
text that they answer with for the array, before and after.  The names may be anything without
an open parenthesis, and the keys anything at all. -/
theorem array_set_get (hwell : (w.interpreter i).vars.WellFormed)
    (huntraced : (w.interpreter i).vars.Untraced) (command : Value) {a b : Value}
    (ha : '(' ∉ a.str.toList) (hb : '(' ∉ b.str.toList)
    (hunset : (w.interpreter i).vars.holds (VarRef.resolve b.str none) = false) :
    ∃ got, (run .array i [command, .text "get", a]).Does w (pure .ok) (w.withResult i got) ∧
      ∀ passed : Value, passed.str = got.str → ∃ vs w',
        w' = (w.withVars i vs).withResult i .empty ∧
        (run .array i [command, .text "set", b, passed]).Does (w.withResult i got) (pure .ok) w' ∧
        Copied (w.interpreter i).vars vs (VarRef.resolve a.str none).name
          (VarRef.resolve b.str none).name ∧
        ∀ q : ArrayQuery, ∃ u u' v : Value,
          (run .array i (q.words command a)).Does w (pure .ok) (w.withResult i u) ∧
          (run .array i (q.words command a)).Does w' (pure .ok) (w'.withResult i u') ∧
          (run .array i (q.words command b)).Does w' (pure .ok) (w'.withResult i v) ∧
          u'.str = u.str ∧ v.str = u.str := by
  refine ⟨_, does_query huntraced command ha .get, fun passed hpassed => ?_⟩
  obtain ⟨vs, hset, hwell', huntraced', hcopied⟩ :=
    does_copy hwell huntraced command _ hb hunset hpassed
  have hvars : (((w.withVars i vs).withResult i .empty).interpreter i).vars = vs :=
    (World.vars_withResult _ i _).trans (World.vars_withVars w i vs)
  rw [← hvars] at huntraced'
  refine ⟨vs, _, rfl, hset, hcopied, fun q => ⟨_, _, _, does_query huntraced command ha q,
    does_query huntraced' command ha q, does_query huntraced' command hb q, ?_, ?_⟩⟩
  · rw [hvars]
    exact hcopied.str_answer_eq hwell hwell' q
  · rw [hvars]
    exact hcopied.str_answer q

/-- An interpreter with an array `a` of one element. -/
def holdingElement (key : String) (value : Value) : World :=
  World.withVars {} 0 ((∅ : Variables).insert "a"
    { content := .array
      elements := (∅ : Std.ExtTreeMap String Element).insert key { value := some value } })

theorem store_holdingElement (key : String) (value : Value) :
    (∅ : Variables).store ⟨"a", some key⟩ value .none =
      .ok (value, ((holdingElement key value).interpreter 0).vars) := by
  have hcombine : combine none value .none = value := rfl
  rw [holdingElement, World.vars_withVars]
  simp [store, hcombine]

/-- A copy by way of the text, with a key and a value that are quoted in it. -/
theorem array_set_get_quoted :
    ((holdingElement ") \x7b" (.text "x y")).interpreter 0).vars.WellFormed ∧
    ((holdingElement ") \x7b" (.text "x y")).interpreter 0).vars.Untraced ∧
    '(' ∉ (Value.text "::a").str.toList ∧ '(' ∉ (Value.text "b").str.toList ∧
    ((holdingElement ") \x7b" (.text "x y")).interpreter 0).vars.holds
      (VarRef.resolve (Value.text "b").str none) = false ∧
    ∃ got w', (run .array 0 [.text "array", .text "get", .text "::a"]).Does
        (holdingElement ") \x7b" (.text "x y")) (pure .ok)
        ((holdingElement ") \x7b" (.text "x y")).withResult 0 got) ∧
      (run .array 0 [.text "array", .text "set", .text "b", got.plain]).Does
        ((holdingElement ") \x7b" (.text "x y")).withResult 0 got) (pure .ok) w' ∧
      ((w'.interpreter 0).vars.element? "b" ") \x7b").map Value.str = some "x y" := by
  have hstore := store_holdingElement ") \x7b" (.text "x y")
  have hwell := WellFormed.empty.store hstore
  have huntraced := Untraced.store (fun r => Variables.tracesOn_empty r) hstore
  have hvars : ((holdingElement ") \x7b" (.text "x y")).interpreter 0).vars = _ :=
    World.vars_withVars {} 0 _
  have ha : '(' ∉ (Value.text "::a").str.toList := by decide
  have hb : '(' ∉ (Value.text "b").str.toList := by decide
  have hname : (VarRef.resolve "::a" none).name = "a" := by decide
  have hname' : VarRef.resolve "b" none = ⟨"b", none⟩ := by decide
  have hunset : ((holdingElement ") \x7b" (.text "x y")).interpreter 0).vars.holds
      (VarRef.resolve (Value.text "b").str none) = false := by
    rw [Value.str, hname', hvars, Variables.holds, getElem?_insert_name, if_neg (by decide),
      Std.ExtTreeMap.getElem?_empty]
    rfl
  obtain ⟨got, hget, hcopy⟩ := array_set_get hwell huntraced (.text "array") ha hb hunset
  obtain ⟨vs, w', rfl, hset, hcopied, -⟩ := hcopy got.plain rfl
  refine ⟨hwell, huntraced, ha, hb, hunset, got, _, hget, hset, ?_⟩
  have htext := hcopied.texts ") \x7b"
  have helement : ((holdingElement ") \x7b" (.text "x y")).interpreter 0).vars.element? "a"
      ") \x7b" = some (.text "x y") :=
    element?_eq_some_iff.2 (WellFormed.empty.framed hstore).self
  rw [World.vars_withResult, World.vars_withVars]
  rw [Value.str, Value.str, hname, hname', helement] at htext
  exact htext

end Builtin
end CommandBridge
