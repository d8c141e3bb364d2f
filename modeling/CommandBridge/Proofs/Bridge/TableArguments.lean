/-
# Arguments from a table

A command may be called with a table (`Bridge.callTable`), or with the elements of the
sequence of arguments that the table becomes (`Bridge.callArgList`).  The first looks at the
options of the table after it has converted the array region, the second before it converts
anything, and it makes a new table on the way.  In a live interpreter both do the same
nevertheless (`Bridge.callTable_agrees`).

* The sequence has no nil, so the new table holds all of it in its array region
  (`Bridge.does_makeArgList`).
* What it becomes is converted in one go or in two (`Bridge.tableWords_of_argList`), before or
  after there is a new table (`Bridge.wordsOfEach_of_extends`).
* If the options are refused, so are the words, whatever stands before them.
-/

import CommandBridge.Proofs.Bridge.Refusal
import CommandBridge.Proofs.Host.Regions
import CommandBridge.Proofs.Host.Tables
import CommandBridge.Proofs.Marshal.Conversion

namespace CommandBridge

namespace World

/-- The world with one more table. -/
def withTable (w : World) (t : Table) : World :=
  { w with heap := (w.heap.addTable t).2 }

variable {w : World} {t : Table}

theorem extends_withTable (w : World) (t : Table) : w.heap.Extends (w.withTable t).heap :=
  Heap.extends_addTable _ _

theorem table_withTable : (w.withTable t).heap.table w.heap.tables.next = t :=
  Heap.table_eq (Heap.get?_addTable _ _)

end World

namespace Bridge

open Program (Does)

variable {α β : Type} {w : World} {handle id : Nat} {t : Table} {vs : List HostValue}

/-- The values in the array region of a table. -/
def elements (w : World) : HostValue → List HostValue
  | .table id => (w.heap.table id).array
  | _ => []

/-- Invokes a command with the elements of the sequence of arguments that a table becomes. -/
def callArgList (handle : Nat) (command : String) (table : Option Nat) :
    Program (Except BridgeError HostValue) := do
  match ← makeArgList (optionMark (← Program.world) handle) table with
  | .error e => return .error e
  | .ok v => call handle command (elements (← Program.world) v)

/-! ### The sequence -/

/-- The options among entries of a map region are those whose keys are no numbers, all of
them named. -/
theorem options_eq_ok_iff {mark : String} {map : List (Key × HostValue)}
    {entries : List (HostValue × HostValue)} :
    options mark map = .ok entries ↔ ∃ named : List (Bytes × HostValue),
      map.filter (fun p => !p.1.isNumeric) = named.map (fun p => (.string p.1, p.2)) ∧
        entries = named.map fun p => (.string (Utf8.encode mark ++ p.1), p.2) := by
  induction map generalizing entries with
  | nil =>
    constructor
    · intro h
      cases h
      exact ⟨[], rfl, rfl⟩
    · rintro ⟨named, hnil, rfl⟩
      rw [List.map_eq_nil_iff.1 hnil.symm]
      rfl
  | cons p rest ih =>
    obtain ⟨key, value⟩ := p
    unfold options
    by_cases hkey : key.isNumeric = true
    · rw [if_pos hkey, ih, List.filter_cons_of_neg (by simp [hkey])]
    · rw [if_neg hkey, List.filter_cons_of_pos (by simp [hkey])]
      constructor
      · intro h
        split at h
        · rename_i name
          cases hrest : options mark rest with
          | error c =>
            rw [hrest] at h
            cases h
          | ok others =>
            rw [hrest] at h
            cases h
            obtain ⟨named, hnamed, rfl⟩ := ih.1 hrest
            exact ⟨(name, value) :: named, by rw [hnamed]; rfl, rfl⟩
        · cases h
      · rintro ⟨named, hnamed, rfl⟩
        cases named with
        | nil => cases hnamed
        | cons q named =>
          obtain ⟨hq, hrest⟩ := List.cons.inj hnamed
          obtain ⟨rfl, rfl⟩ := Prod.mk.inj hq
          simp only [ih.2 ⟨named, hrest, rfl⟩]
          rfl

/-- Names behind the mark, each with its value behind it. -/
def namedArguments (mark : String) (named : List (Bytes × HostValue)) : List HostValue :=
  named.flatMap fun p => [.string (Utf8.encode mark ++ p.1), p.2]

/-- **The sequence is the array region and behind it the options**, in the order in which
they came into the table: all entries whose keys are no numbers, if these are names. -/
theorem argList_eq_ok_iff {mark : String} :
    argList mark t = .ok vs ↔ ∃ named : List (Bytes × HostValue),
      t.map.filter (fun p => !p.1.isNumeric) = named.map (fun p => (.string p.1, p.2)) ∧
        vs = t.array ++ namedArguments mark named := by
  have hlist : ∀ named : List (Bytes × HostValue),
      alternating (named.map fun p => (.string (Utf8.encode mark ++ p.1), p.2)) =
        namedArguments mark named := fun named => List.flatMap_map ..
  rw [argList]
  constructor
  · intro h
    cases hoptions : options mark t.map with
    | error c =>
      rw [hoptions] at h
      cases h
    | ok entries =>
      rw [hoptions] at h
      cases h
      obtain ⟨named, hnamed, rfl⟩ := options_eq_ok_iff.1 hoptions
      exact ⟨named, hnamed, congrArg (t.array ++ ·) (hlist named)⟩
  · rintro ⟨named, hnamed, rfl⟩
    rw [options_eq_ok_iff.2 ⟨named, hnamed, rfl⟩, ← hlist]
    rfl

/-- No table has a nil, and no option is one. -/
theorem not_nil_of_argList {mark : String} (ht : t.Proper) (h : argList mark t = .ok vs) :
    ∀ v ∈ vs, v.isNil = false := by
  obtain ⟨named, hnamed, rfl⟩ := argList_eq_ok_iff.1 h
  intro v hv
  rcases List.mem_append.1 hv with hv | hv
  · exact ht.not_nil v hv
  · obtain ⟨p, hp, hv⟩ := List.mem_flatMap.1 hv
    have hmem : ((.string p.1, p.2) : Key × HostValue) ∈ t.map :=
      List.mem_of_mem_filter (hnamed ▸ List.mem_map_of_mem hp)
    rcases List.mem_pair.1 hv with rfl | rfl
    · rfl
    · exact ht.filled.not_nil _ hmem

/-- What is in the sequence is in the table, but for the names. -/
theorem has_of_argList {mark : String} (hc : w.heap.Closed) (ht : w.heap.tables.get? id = some t)
    (h : argList mark t = .ok vs) : ∀ v ∈ vs, w.heap.Has v := by
  obtain ⟨named, hnamed, rfl⟩ := argList_eq_ok_iff.1 h
  intro v hv
  rcases List.mem_append.1 hv with hv | hv
  · exact (hc id t ht).1 v hv
  · obtain ⟨p, hp, hv⟩ := List.mem_flatMap.1 hv
    have hmem : ((.string p.1, p.2) : Key × HostValue) ∈ t.map :=
      List.mem_of_mem_filter (hnamed ▸ List.mem_map_of_mem hp)
    rcases List.mem_pair.1 hv with rfl | rfl
    · exact nofun
    · exact (hc id t ht).2 _ hmem

/-! ### The words -/

theorem wordsOfEach_append (w : World) (us vs : List HostValue) :
    wordsOfEach w (us ++ vs) = do
      let a ← wordsOfEach w us
      let b ← wordsOfEach w vs
      return a ++ b := by
  simp only [wordsOfEach, List.mapM_append]
  cases us.mapM (wordsOf w) with
  | error c => rfl
  | ok a =>
    cases vs.mapM (wordsOf w) with
    | error c => rfl
    | ok b => exact congrArg Except.ok List.flatten_append

/-- **A table becomes the words of its sequence**, which are converted in two goes. -/
theorem tableWords_of_argList {mark : String} (h : argList mark t = .ok vs) :
    tableWords w mark t = wordsOfEach w vs := by
  rw [argList] at h
  rw [tableWords]
  cases hoptions : options mark t.map with
  | error c =>
    rw [hoptions] at h
    cases h
  | ok entries =>
    rw [hoptions] at h
    cases h
    rw [wordsOfEach_append]
    rfl

/-- A table without a sequence becomes no words. -/
theorem exists_tableWords_error_of_argList {mark : String} {c : ConversionError}
    (h : argList mark t = .error c) (w : World) : ∃ c', tableWords w mark t = .error c' :=
  exists_tableWords_error_iff.2 (.inr (.inl ((exists_options_error_iff mark).1
    ⟨c, map_eq_error_iff.1 h⟩)))

/-- A table that is added makes no difference to the words of values that lead to no table
that is missing. -/
theorem wordsOfEach_of_extends (hc : w.heap.Closed) (hvs : ∀ v ∈ vs, w.heap.Has v) (t : Table) :
    wordsOfEach (w.withTable t) vs = wordsOfEach w vs := by
  have hwords : ∀ v ∈ vs, wordsOf (w.withTable t) v = wordsOf w v := by
    intro v hv
    have hconvert : Marshal.toTarget (w.withTable t).heap v = Marshal.toTarget w.heap v :=
      Marshal.convert_of_extends (w.extends_withTable t) hc {} v (hvs v hv)
    rw [wordsOf, wordsOf, hconvert]
    rfl
  have hmap : vs.mapM (wordsOf (w.withTable t)) = vs.mapM (wordsOf w) := by
    clear hvs
    induction vs with
    | nil => rfl
    | cons v r ih =>
      rw [List.mapM_cons, List.mapM_cons, hwords v List.mem_cons_self,
        ih fun u hu => hwords u (List.mem_cons_of_mem v hu)]
  rw [wordsOfEach, wordsOfEach, hmap]

/-! ### The operations -/

section Parts

variable {i : Nat} {k : Nat → Program (Except BridgeError α)}

theorem does_withLive (h : live? w handle = some i) : (withLive handle k).Does w (k i) w := by
  refine (Does.reading (fun w => w) _ w).trans ?_
  rw [h]
  exact .refl _ w

theorem does_withLive_none (h : live? w handle = none) :
    (withLive handle k).Does w (pure (.error deletedError)) w := by
  refine (Does.reading (fun w => w) _ w).trans ?_
  rw [h]
  exact .refl _ w

variable {f : World → Except ConversionError α} {k : α → Program (Except BridgeError β)}

theorem does_withConverted {a : α} (h : f w = .ok a) : (withConverted f k).Does w (k a) w := by
  refine (Does.reading (fun w => w) _ w).trans ?_
  rw [h]
  exact .refl _ w

theorem does_withConverted_error {c : ConversionError} (h : f w = .error c) :
    (withConverted f k).Does w (pure (.error c.toBridge)) w := by
  refine (Does.reading (fun w => w) _ w).trans ?_
  rw [h]
  exact .refl _ w

end Parts

section Operations

variable {i : Nat} {command : String}

/-- **The sequence becomes a new table** that holds it and nothing else. -/
theorem does_makeArgList {mark : String} (ht : w.heap.tables.get? id = some t) (hp : t.Proper)
    (h : argList mark t = .ok vs) :
    (makeArgList mark (some id)).Does w (pure (.ok (.table w.heap.tables.next)))
      (w.withTable ⟨vs, []⟩) := by
  rw [← Heap.table_eq ht] at h
  refine (does_withConverted h).trans ((Does.update _ w).bind _ |>.trans ?_)
  rw [Heap.table_eq ht] at h
  dsimp only
  rw [Table.ofValues_eq (not_nil_of_argList hp h)]
  exact .refl _ _

theorem does_callArgList (command : String) (ht : w.heap.tables.get? id = some t) (hp : t.Proper)
    (h : argList (optionMark w handle) t = .ok vs) :
    (callArgList handle command (some id)).Does w (call handle command vs)
      (w.withTable ⟨vs, []⟩) := by
  refine (Does.reading (fun w => w) _ w).trans (((does_makeArgList ht hp h).bind _).trans ?_)
  refine (Does.reading (fun w => w) _ _).trans ?_
  rw [elements, World.table_withTable]
  exact .refl _ _

theorem does_callArgList_error {c : ConversionError} (ht : w.heap.tables.get? id = some t)
    (h : argList (optionMark w handle) t = .error c) :
    (callArgList handle command (some id)).Does w (pure (.error c.toBridge)) w := by
  rw [← Heap.table_eq ht] at h
  exact (Does.reading (fun w => w) _ w).trans ((does_withConverted_error h).bind _)

theorem does_call {words : List Value} (hi : live? w handle = some i)
    (h : wordsOfEach w vs = .ok words) :
    (call handle command vs).Does w (dispatch i (commandWords command ++ words)) w :=
  (does_withLive hi).trans (does_withConverted h)

theorem does_call_error {c : ConversionError} (hi : live? w handle = some i)
    (h : wordsOfEach w vs = .error c) :
    (call handle command vs).Does w (pure (.error c.toBridge)) w :=
  (does_withLive hi).trans (does_withConverted_error h)

theorem does_callTable {words : List Value} (hi : live? w handle = some i)
    (ht : w.heap.tables.get? id = some t)
    (h : tableWords w (optionMark w handle) t = .ok words) :
    (callTable handle command (some id)).Does w (dispatch i (commandWords command ++ words)) w := by
  rw [← Heap.table_eq ht] at h
  exact (does_withLive hi).trans (does_withConverted h)

theorem does_callTable_error {c : ConversionError} (hi : live? w handle = some i)
    (ht : w.heap.tables.get? id = some t)
    (h : tableWords w (optionMark w handle) t = .error c) :
    (callTable handle command (some id)).Does w (pure (.error c.toBridge)) w := by
  rw [← Heap.table_eq ht] at h
  exact (does_withLive hi).trans (does_withConverted_error h)

end Operations

/-- Something in the table does not become words, or a key of it is no name. -/
def Unusable (w : World) (t : Table) : Prop :=
  (∃ v ∈ t.array, Unfit w v) ∨ (∃ p ∈ t.map, Nameless p.1) ∨
    ∃ name v, (.string name, v) ∈ t.map ∧ Unfit w v

/-- **Calling a command with a table is calling it with the table's sequence of arguments.**
In a live interpreter both invoke the command with the same words, those of the array region
and behind them each name with its value, and lead to the same from any one world; or both
fail with an error of conversion.  In an interpreter that was taken down they fail alike. -/
theorem callTable_agrees (handle : Nat) (ht : w.heap.tables.get? id = some t) (hp : t.Proper)
    (hc : w.heap.Closed) (command : String) :
    (∀ i, live? w handle = some i →
      (¬Unusable w t ∧ ∃ (named : List (Bytes × HostValue)) (vs : List HostValue)
          (words : List Value),
        t.map.filter (fun p => !p.1.isNumeric) = named.map (fun p => (.string p.1, p.2)) ∧
        vs = t.array ++ namedArguments (optionMark w handle) named ∧
        wordsOfEach w vs = .ok words ∧
        (makeArgList (optionMark w handle) (some id)).Does w
          (pure (.ok (.table w.heap.tables.next))) (w.withTable ⟨vs, []⟩) ∧
        (callTable handle command (some id)).Does w
          (dispatch i (commandWords command ++ words)) w ∧
        (callArgList handle command (some id)).Does w
          (dispatch i (commandWords command ++ words)) (w.withTable ⟨vs, []⟩) ∧
        (callArgList handle command (some id)).Does w
          (callTable handle command (some id)) (w.withTable ⟨vs, []⟩)) ∨
      (Unusable w t ∧ ∃ (e e' : BridgeError) (w' : World),
        e.kindName = "ConversionError" ∧ e'.kindName = "ConversionError" ∧
        (w' = w ∨ ∃ vs, w' = w.withTable ⟨vs, []⟩) ∧
        (callTable handle command (some id)).Does w (pure (.error e)) w ∧
        (callArgList handle command (some id)).Does w (pure (.error e')) w')) ∧
    (live? w handle = none → ∀ args,
      (callTable handle command (some id)).Does w (pure (.error deletedError)) w ∧
      (call handle command args).Does w (pure (.error deletedError)) w) := by
  refine ⟨fun i hi => ?_, fun hi args => ⟨does_withLive_none hi, does_withLive_none hi⟩⟩
  have hunusable : (∃ c, tableWords w (optionMark w handle) t = .error c) ↔ Unusable w t :=
    exists_tableWords_error_iff
  cases hargs : argList (optionMark w handle) t with
  | error c =>
    obtain ⟨c', hwords⟩ := exists_tableWords_error_of_argList hargs w
    exact .inr ⟨hunusable.1 ⟨c', hwords⟩, c'.toBridge, c.toBridge, w, rfl, rfl, .inl rfl,
      does_callTable_error hi ht hwords, does_callArgList_error ht hargs⟩
  | ok vs =>
    have hlist := does_callArgList command ht hp hargs
    have hbefore : wordsOfEach w vs = tableWords w (optionMark w handle) t :=
      (tableWords_of_argList hargs).symm
    have hlater := (wordsOfEach_of_extends hc (has_of_argList hc ht hargs) ⟨vs, []⟩).trans hbefore
    cases hwords : tableWords w (optionMark w handle) t with
    | error c =>
      rw [hwords] at hlater
      exact .inr ⟨hunusable.1 ⟨c, hwords⟩, c.toBridge, c.toBridge, _, rfl, rfl, .inr ⟨vs, rfl⟩,
        does_callTable_error hi ht hwords, hlist.trans (does_call_error hi hlater)⟩
    | ok words =>
      rw [hwords] at hlater
      obtain ⟨named, hnamed, hvs⟩ := argList_eq_ok_iff.1 hargs
      have husable : ¬Unusable w t := by
        intro h
        obtain ⟨c, hc⟩ := hunusable.2 h
        exact nomatch hc.symm.trans hwords
      have hcall := hlist.trans (does_call hi hlater)
      have hlive : live? (w.withTable ⟨vs, []⟩) handle = some i := hi
      have htable := (w.extends_withTable ⟨vs, []⟩).get?_eq id t ht
      refine .inl ⟨husable, named, vs, words, hnamed, hvs,
        hbefore.trans hwords, does_makeArgList ht hp hargs,
        does_callTable hi ht hwords, hcall, hcall.trans ?_⟩
      exact (does_callTable hlive htable ((tableWords_of_argList hargs).trans hlater)).symm

/-- A table with a value in the array region, one under a number and one under a name. -/
theorem callTable_agrees_mixed :
    ∃ (w : World) (t : Table) (vs : List HostValue) (words : List Value),
      w.heap.tables.get? 0 = some t ∧ t.Proper ∧ w.heap.Closed ∧ live? w 0 = some 0 ∧
      t.map.length = 2 ∧ vs.length = 3 ∧ wordsOfEach w vs = .ok words ∧
      (callTable 0 "list" (some 0)).Does w (dispatch 0 (commandWords "list" ++ words)) w ∧
      (callArgList 0 "list" (some 0)).Does w (callTable 0 "list" (some 0))
        (w.withTable ⟨vs, []⟩) := by
  let t : Table := { array := [.int 1], map := [(.int 5, .int 7), (.string [120], .int 2)] }
  let w : World := { World.bridged 10 with heap := (({} : Heap).addTable t).2 }
  have hp : t.Proper := by
    refine ⟨by decide, ⟨by decide, by decide⟩, fun i _ hle hmem => ?_⟩
    rcases List.mem_pair.1 hmem with h | h
    · cases h
      exact absurd hle (by decide)
    · cases h
  have hdata : ∀ i : Int64, Heap.Has {} (.int i) := fun _ _ h => nomatch h
  have hc : w.heap.Closed := Heap.closed_empty.addTable (by simp [t, hdata]) (by simp [t, hdata])
  have hfit : ∀ i : Int64, ¬Unfit w (.int i) := by
    rintro i ⟨c, hc⟩
    rw [wordsOf, Marshal.toTarget, Marshal.convert] at hc
    cases hc
  have husable : ¬Unusable w t := by
    rintro (⟨v, hv, h⟩ | ⟨p, hp, h⟩ | ⟨name, v, hv, h⟩)
    · obtain rfl := List.mem_singleton.1 hv
      exact hfit 1 h
    · rcases List.mem_pair.1 hp with rfl | rfl
      · cases h.1
      · exact h.2 _ rfl
    · rcases List.mem_pair.1 hv with h' | h' <;> cases h'
      exact hfit 2 h
  have ht : w.heap.tables.get? 0 = some t := Heap.get?_addTable _ _
  rcases (callTable_agrees 0 ht hp hc "list").1 0 rfl with
    ⟨-, named, vs, words, hnamed, rfl, hwords, -, htable, -, hlist⟩ | ⟨h, -⟩
  · obtain ⟨p, rfl⟩ : ∃ p, named = [p] := by
      rw [← List.length_eq_one_iff]
      simpa [t, Key.isNumeric] using (congrArg List.length hnamed).symm
    exact ⟨w, t, _, words, ht, hp, hc, rfl, rfl, rfl, hwords, htable, hlist⟩
  · exact absurd h husable

/-- On a destroyed handle nothing is converted, so what a table is refused for as a sequence of
arguments is not what a call with it fails for. -/
theorem deleted_before_conversion :
    ∃ (w : World) (t : Table), w.heap.tables.get? 0 = some t ∧ t.Proper ∧ w.heap.Closed ∧
      (∃ e, e.kindName = "ConversionError" ∧
        (callArgList 0 "list" (some 0)).Does w (pure (.error e)) w) ∧
      ∃ e, e.kindName ≠ "ConversionError" ∧
        (callTable 0 "list" (some 0)).Does w (pure (.error e)) w := by
  let t : Table := { map := [(.bool true, .int 1)] }
  let w : World :=
    { interpreters := Pool.empty.add { Interpreter.new 10 with deleted := true }
      handles := Pool.empty.add { interpreter := 0, destroyed := true }
      heap := (({} : Heap).addTable t).2 }
  have hp : t.Proper := by
    refine ⟨nofun, ⟨by decide, by decide⟩, fun i _ _ hmem => ?_⟩
    cases List.mem_singleton.1 hmem
  have hdata : ∀ i : Int64, Heap.Has {} (.int i) := fun _ _ h => nomatch h
  have hc : w.heap.Closed := Heap.closed_empty.addTable nofun (by simp [t, hdata])
  have ht : w.heap.tables.get? 0 = some t := Heap.get?_addTable _ _
  have hargs : argList (optionMark w 0) t = .error (.optionName "boolean") := rfl
  exact ⟨w, t, ht, hp, hc, ⟨_, rfl, does_callArgList_error ht hargs⟩,
    deletedError, by decide, does_withLive_none rfl⟩

end Bridge
end CommandBridge
