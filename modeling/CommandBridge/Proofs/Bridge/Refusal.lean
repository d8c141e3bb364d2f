/-
# Refused operations leave everything alone

An operation of the bridge converts all that it is given before it touches its
interpreter, and a library function looks at all its arguments before it does anything.
So what fails at the boundary fails at once: no command, trace or host function has been
called by then, and the world is as it was (`Program.Refuses`).

After the conversion an operation fails with what the interpreter has to say, and never
again with an error of conversion; after its checks a library function never again fails
with an error of its arguments (`Request.always_perform`).  That makes the two kinds of
error tell that nothing has happened (`Bridge.refuses`, `LibraryFunction.refuses`).  One
argument that cannot be converted is enough, wherever it stands
(`Bridge.exists_wordsOfEach_error_iff`, `Bridge.exists_tableWords_error_iff`).
-/

import CommandBridge.Library.Perform
import CommandBridge.Proofs.Run.CallLog
import CommandBridge.Scenario.Dispatch

namespace CommandBridge

variable {α β : Type} {kind : String}

/-- The result is no error of the kind. -/
def BridgeError.Spares (kind : String) (r : Except BridgeError α) : Prop :=
  ∀ e, r = .error e → e.kindName ≠ kind

open BridgeError (Spares)

theorem BridgeError.spares_ok (a : α) : Spares kind (.ok a) :=
  fun _ h => nomatch h

theorem BridgeError.spares_error {e : BridgeError} (h : e.kindName ≠ kind) :
    Spares kind (.error e : Except BridgeError α) := by
  intro e' he
  cases he
  exact h

theorem BridgeError.Spares.map {r : Except BridgeError α} (h : Spares kind r) (f : α → β) :
    Spares kind (r.map f) := by
  cases r with
  | error e => exact spares_error (h e rfl)
  | ok a => exact spares_ok _

open BridgeError (spares_ok spares_error)

/-! ### Programs that fail at once -/

namespace Program

/-- With an error of the kind the program fails exactly for the cause and at once: nothing
was called, and the world is as it was. -/
def Refuses (kind : String) (p : Program (Except BridgeError α))
    (cause : World → BridgeError → Prop) : Prop :=
  ∀ (handler : Machine.Handler) (w : World) (cs : List Call) (e : BridgeError) (w' : World),
    e.kindName = kind →
      (p.Makes handler w cs (.error e) w' ↔ cause w e ∧ cs = [] ∧ w' = w)

theorem Refuses.of_iff {p : Program (Except BridgeError α)}
    {cause cause' : World → BridgeError → Prop} (h : p.Refuses kind cause)
    (hcause : ∀ w e, e.kindName = kind → (cause w e ↔ cause' w e)) : p.Refuses kind cause' :=
  fun handler w cs e w' he =>
    (h handler w cs e w' he).trans (and_congr_left fun _ => hcause w e he)

/-- What never ends with an error of the kind has no cause for one. -/
theorem refuses_of_always {p : Program (Except BridgeError α)} (h : p.Always (Spares kind)) :
    p.Refuses kind fun _ _ => False :=
  fun _ _ _ e _ he => ⟨fun hm => absurd he (hm.runs.always h e rfl), fun h => h.1.elim⟩

/-- A result of a program is turned into another one. -/
theorem Always.map_result {p : Program (Except BridgeError α)} (hp : p.Always (Spares kind))
    (f : α → β) : (do return (← p).map f : Program (Except BridgeError β)).Always (Spares kind) :=
  .bind hp fun _ ha => ha.map f

end Program

open Program (always_then refuses_of_always)

namespace Bridge

/-! ### The parts of an operation -/

section Parts

variable {k : Nat → Program (Except BridgeError α)}

/-- What was taken down is no matter of conversion or of arguments. -/
theorem refuses_withLive (hkind : kind ≠ "EvalError") {h : Nat}
    {cause : World → BridgeError → Prop} (hk : ∀ i, (k i).Refuses kind cause) :
    (withLive h k).Refuses kind fun w e => (live? w h).isSome = true ∧ cause w e := by
  intro handler w cs e w' he
  refine (Program.makes_reading_iff (f := fun w => w)).trans ?_
  dsimp only
  cases live? w h with
  | some i =>
    refine (hk i handler w cs e w' he).trans (and_congr_left fun _ => ?_)
    exact ⟨fun hc => ⟨rfl, hc⟩, And.right⟩
  | none =>
    refine Program.makes_done_iff.trans ⟨fun ⟨_, herror, _⟩ => ?_, fun ⟨⟨hlive, _⟩, _⟩ => ?_⟩
    · cases herror
      exact absurd he hkind.symm
    · cases hlive

/-- What cannot be converted is refused before anything is done with the rest. -/
theorem refuses_withConverted {f : World → Except ConversionError α}
    {k : α → Program (Except BridgeError β)}
    (hk : ∀ a, (k a).Always (Spares "ConversionError")) :
    (withConverted f k).Refuses "ConversionError" fun w e =>
      ∃ c, f w = .error c ∧ e = c.toBridge := by
  intro handler w cs e w' he
  refine (Program.makes_reading_iff (f := fun w => w)).trans ?_
  dsimp only
  cases f w with
  | ok a =>
    refine (refuses_of_always (hk a) handler w cs e w' he).trans (and_congr_left fun _ => ?_)
    exact ⟨False.elim, fun ⟨_, hc, _⟩ => nomatch hc⟩
  | error c =>
    refine Program.makes_done_iff.trans ⟨?_, ?_⟩
    · rintro ⟨rfl, herror, rfl⟩
      exact ⟨⟨c, rfl, Except.error.inj herror⟩, rfl, rfl⟩
    · rintro ⟨⟨_, hc, rfl⟩, rfl, rfl⟩
      cases hc
      exact ⟨rfl, rfl, rfl⟩

theorem always_withLive (hkind : kind ≠ "EvalError") {h : Nat}
    (hk : ∀ i, (k i).Always (Spares kind)) : (withLive h k).Always (Spares kind) := by
  refine always_then fun w => ?_
  split
  · exact hk _
  · exact spares_error hkind.symm

theorem always_withConverted (hkind : kind ≠ "ConversionError")
    {f : World → Except ConversionError α} {k : α → Program (Except BridgeError β)}
    (hk : ∀ a, (k a).Always (Spares kind)) : (withConverted f k).Always (Spares kind) := by
  refine always_then fun w => ?_
  split
  · exact hk _
  · exact spares_error hkind.symm

theorem always_resultError (hkind : kind ≠ "EvalError") (i : Nat) :
    (resultError i : Program (Except BridgeError α)).Always (Spares kind) :=
  always_then fun _ => spares_error hkind.symm

/-- An evaluation fails with the text that it leaves. -/
theorem always_finish (hkind : kind ≠ "EvalError") (i : Nat) (status : Status) :
    (finish i status).Always (Spares kind) := by
  cases status with
  | error => exact always_resultError hkind i
  | ok => exact always_then fun _ => always_then fun _ => spares_ok _
  | returned => exact always_then fun _ => always_then fun _ => spares_ok _

theorem always_dispatch (hkind : kind ≠ "EvalError") (i : Nat) (words : List Value) :
    (dispatch i words).Always (Spares kind) :=
  always_then fun _ => always_then fun status => always_finish hkind i status

theorem always_finishAccess (hkind : kind ≠ "EvalError") (i : Nat) (value : Option Value) :
    (finishAccess i value).Always (Spares kind) := by
  cases value with
  | some v => exact always_then fun _ => spares_ok _
  | none => exact always_resultError hkind i

end Parts

/-! ### Conversion of arguments -/

/-- A sequence fails if one of its parts does. -/
theorem exists_mapM_error_iff {ε : Type} {f : α → Except ε β} {l : List α} :
    (∃ e, l.mapM f = .error e) ↔ ∃ a ∈ l, ∃ e, f a = .error e := by
  induction l with
  | nil => exact ⟨fun ⟨_, h⟩ => (nomatch h), fun ⟨_, h, _⟩ => (nomatch h)⟩
  | cons a l ih =>
    simp only [List.mapM_cons, List.mem_cons, exists_eq_or_imp]
    cases ha : f a with
    | error e => exact ⟨fun _ => .inl ⟨e, rfl⟩, fun _ => ⟨e, rfl⟩⟩
    | ok b =>
      refine Iff.trans ?_ (ih.trans (or_iff_right fun ⟨_, h⟩ => nomatch h).symm)
      cases l.mapM f with
      | error e => exact ⟨fun _ => ⟨e, rfl⟩, fun _ => ⟨e, rfl⟩⟩
      | ok bs => exact ⟨fun ⟨_, h⟩ => (nomatch h), fun ⟨_, h⟩ => (nomatch h)⟩

theorem map_eq_error_iff {ε : Type} {r : Except ε α} {f : α → β} {e : ε} :
    r.map f = .error e ↔ r = .error e := by
  cases r with
  | error e' =>
    exact ⟨fun h => congrArg _ (Except.error.inj h), fun h => congrArg _ (Except.error.inj h)⟩
  | ok a => exact ⟨fun h => (nomatch h), fun h => (nomatch h)⟩

/-- The value does not become words: it is a bundle that was torn down, or it cannot be
converted. -/
def Unfit (w : World) (v : HostValue) : Prop :=
  ∃ c, wordsOf w v = .error c

theorem wordsOf_string (w : World) (bs : Bytes) :
    wordsOf w (.string bs) = .ok [Marshal.ofBytes bs] := by
  rw [wordsOf, Marshal.toTarget, Marshal.convert]
  rfl

/-- One argument that does not become words is enough, wherever it stands. -/
theorem exists_wordsOfEach_error_iff {w : World} {vs : List HostValue} :
    (∃ c, wordsOfEach w vs = .error c) ↔ ∃ v ∈ vs, Unfit w v := by
  simp only [wordsOfEach, map_eq_error_iff, exists_mapM_error_iff, Unfit]

/-- The key is neither a number nor a string, so it names no option. -/
def Nameless (key : Key) : Prop :=
  key.isNumeric = false ∧ ∀ name, key ≠ .string name

theorem exists_options_error_iff (mark : String) {entries : List (Key × HostValue)} :
    (∃ c, options mark entries = .error c) ↔ ∃ p ∈ entries, Nameless p.1 := by
  induction entries with
  | nil => exact ⟨fun ⟨_, h⟩ => (nomatch h), fun ⟨_, h, _⟩ => (nomatch h)⟩
  | cons p rest ih =>
    obtain ⟨key, value⟩ := p
    simp only [List.mem_cons, exists_eq_or_imp, options]
    split
    · rename_i hnumeric
      exact ih.trans (or_iff_right fun h => Bool.false_ne_true (h.1.symm.trans hnumeric)).symm
    · rename_i hnumeric
      split
      · rename_i name
        simp only [map_eq_error_iff]
        exact ih.trans (or_iff_right fun h => h.2 name rfl).symm
      · rename_i hstring
        exact ⟨fun _ => .inl ⟨Bool.eq_false_iff.2 hnumeric, hstring⟩, fun _ => ⟨_, rfl⟩⟩

/-- The options of a map region are its entries whose keys are no numbers. -/
theorem mem_options_iff {mark : String} {entries : List (Key × HostValue)}
    {named : List (HostValue × HostValue)} (h : options mark entries = .ok named)
    {o : HostValue × HostValue} :
    o ∈ named ↔
      ∃ name v, (.string name, v) ∈ entries ∧ o = (.string (Utf8.encode mark ++ name), v) := by
  induction entries generalizing named with
  | nil =>
    cases h
    exact ⟨fun h => (nomatch h), fun ⟨_, _, h, _⟩ => (nomatch h)⟩
  | cons p rest ih =>
    obtain ⟨key, value⟩ := p
    unfold options at h
    split at h
    · rename_i hnumeric
      refine (ih h).trans (exists₂_congr fun name v => and_congr_left fun _ => ?_)
      refine ⟨List.mem_cons_of_mem _, fun hmem => (List.mem_cons.1 hmem).resolve_left fun heq => ?_⟩
      obtain ⟨rfl, -⟩ := Prod.mk.inj heq
      cases hnumeric
    · split at h
      · rename_i name _
        cases hrest : options mark rest with
        | error c =>
          rw [hrest] at h
          cases h
        | ok others =>
          rw [hrest] at h
          cases h
          rw [List.mem_cons, ih hrest]
          constructor
          · rintro (rfl | ⟨name', v, hmem, rfl⟩)
            · exact ⟨name, value, List.mem_cons_self, rfl⟩
            · exact ⟨name', v, List.mem_cons_of_mem _ hmem, rfl⟩
          · rintro ⟨name', v, hmem, rfl⟩
            rcases List.mem_cons.1 hmem with heq | hmem
            · obtain ⟨hname, rfl⟩ := Prod.mk.inj heq
              obtain rfl := Key.string.inj hname
              exact .inl rfl
            · exact .inr ⟨name', v, hmem, rfl⟩
      · cases h

/-- A table does not become words if something in its array region does not, if a key is no
name, or if the value of an option does not. -/
theorem exists_tableWords_error_iff {w : World} {mark : String} {t : Table} :
    (∃ c, tableWords w mark t = .error c) ↔
      (∃ v ∈ t.array, Unfit w v) ∨ (∃ p ∈ t.map, Nameless p.1) ∨
        ∃ name v, (.string name, v) ∈ t.map ∧ Unfit w v := by
  rw [← exists_wordsOfEach_error_iff, ← exists_options_error_iff mark, tableWords]
  cases wordsOfEach w t.array with
  | error c => exact ⟨fun _ => .inl ⟨c, rfl⟩, fun _ => ⟨c, rfl⟩⟩
  | ok positional =>
    refine Iff.trans ?_ (or_iff_right fun ⟨_, h⟩ => (nomatch h)).symm
    cases hoptions : options mark t.map with
    | error c => exact ⟨fun _ => .inl ⟨c, rfl⟩, fun _ => ⟨c, rfl⟩⟩
    | ok named =>
      refine Iff.trans ?_ (or_iff_right fun ⟨_, h⟩ => (nomatch h)).symm
      have hwords : (∃ c, wordsOfEach w (alternating named) = .error c) ↔
          ∃ name v, (.string name, v) ∈ t.map ∧ Unfit w v := by
        rw [exists_wordsOfEach_error_iff]
        simp only [alternating, List.mem_flatMap, List.mem_cons, List.not_mem_nil, or_false]
        constructor
        · rintro ⟨v, ⟨o, ho, hv⟩, hunfit⟩
          obtain ⟨name, value, hmem, rfl⟩ := (mem_options_iff hoptions).1 ho
          rcases hv with rfl | rfl
          · obtain ⟨c, hc⟩ := hunfit
            exact nomatch (wordsOf_string w _).symm.trans hc
          · exact ⟨name, v, hmem, hunfit⟩
        · rintro ⟨name, v, hmem, hunfit⟩
          exact ⟨v, ⟨_, (mem_options_iff hoptions).2 ⟨name, v, hmem, rfl⟩, .inr rfl⟩, hunfit⟩
      rw [← hwords]
      change (∃ c, (do let named ← wordsOfEach w (alternating named); pure (positional ++ named) :
        Except ConversionError (List Value)) = .error c) ↔ _
      cases wordsOfEach w (alternating named) with
      | error c => exact ⟨fun _ => ⟨c, rfl⟩, fun _ => ⟨c, rfl⟩⟩
      | ok _ => exact ⟨fun ⟨_, h⟩ => (nomatch h), fun ⟨_, h⟩ => (nomatch h)⟩

/-! ### The operations -/

theorem refuses_call (h : Nat) (command : String) (args : List HostValue) :
    (call h command args).Refuses "ConversionError" fun w e =>
      (live? w h).isSome = true ∧ ∃ c, wordsOfEach w args = .error c ∧ e = c.toBridge :=
  refuses_withLive (by decide) fun i => refuses_withConverted fun _ =>
    always_dispatch (by decide) i _

theorem refuses_callTable (h : Nat) (command : String) (table : Option Nat) :
    (callTable h command table).Refuses "ConversionError" fun w e =>
      (live? w h).isSome = true ∧ ∃ id, table = some id ∧
        ∃ c, tableWords w (optionMark w h) (w.heap.table id) = .error c ∧ e = c.toBridge := by
  refine refuses_withLive (by decide) fun i => ?_
  cases table with
  | none =>
    refine (refuses_of_always (always_dispatch (by decide) i _)).of_iff fun _ _ _ => ?_
    exact ⟨False.elim, fun ⟨_, hid, _⟩ => nomatch hid⟩
  | some id =>
    refine (refuses_withConverted fun _ => always_dispatch (by decide) i _).of_iff fun _ _ _ => ?_
    exact ⟨fun hc => ⟨id, rfl, hc⟩, fun ⟨_, hid, hc⟩ => Option.some.inj hid ▸ hc⟩

theorem refuses_setVar (h : Nat) (name : String) (key : Option String) (value : HostValue)
    (flags : Flags) :
    (setVar h name key value flags).Refuses "ConversionError" fun w e =>
      (live? w h).isSome = true ∧ ∃ c, Marshal.toTarget w.heap value = .error c ∧ e = c.toBridge :=
  refuses_withLive (by decide) fun i => refuses_withConverted fun _ =>
    always_then fun _ => always_finishAccess (by decide) i _

theorem refuses_buildBundle (i : Nat) (values : List HostValue) :
    (buildBundle i values).Refuses "ConversionError" fun w e =>
      ∃ c, Marshal.toTargets w.heap values = .error c ∧ e = c.toBridge := by
  unfold buildBundle
  split
  · rename_i hempty
    rw [List.isEmpty_iff] at hempty
    subst hempty
    refine (refuses_of_always (p := pure (.error emptyBundleError))
      (spares_error (by decide))).of_iff fun _ _ _ => ?_
    exact ⟨False.elim, fun ⟨_, hc, _⟩ => nomatch hc⟩
  · exact refuses_withConverted fun _ => always_then fun _ => always_then fun _ =>
      always_then fun _ => spares_ok _

end Bridge

/-! ### Arguments of library functions -/

/-- A check either names the function in the error of an argument, or gives something with
the property. -/
def LibraryFunction.Checks (f : LibraryFunction) (Q : α → Prop) : Except BridgeError α → Prop
  | .error e => ∃ position message, e = .argument f.name position message
  | .ok a => Q a

namespace LibraryFunction.Checks

variable {f : LibraryFunction} {Q : α → Prop} {values : List HostValue} {w : World}

theorem bind {P : β → Prop} {x : Except BridgeError α} {k : α → Except BridgeError β}
    (hx : f.Checks Q x) (hk : ∀ a, Q a → f.Checks P (k a)) : f.Checks P (x >>= k) := by
  cases x with
  | error e => exact hx
  | ok a => exact hk a hx

theorem map {P : β → Prop} {x : Except BridgeError α} {g : α → β} (hx : f.Checks Q x)
    (hg : ∀ a, Q a → P (g a)) : f.Checks P (x.map g) := by
  cases x with
  | error e => exact hx
  | ok a => exact hg a hx

/-- Each of a sequence of checks may fail. -/
theorem mapM {γ : Type} {check : γ → Except BridgeError α}
    (hcheck : ∀ c, f.Checks (fun _ => True) (check c)) (l : List γ) :
    f.Checks (fun _ => True) (l.mapM check) := by
  induction l with
  | nil => exact trivial
  | cons c l ih =>
    rw [List.mapM_cons]
    exact bind (hcheck c) fun _ _ => bind ih fun _ _ => trivial

theorem expected (position : Nat) (what : String) :
    f.Checks Q ((⟨f, values⟩ : Arguments).expected position what) :=
  ⟨position, _, rfl⟩

theorem handle (position : Nat) :
    f.Checks (fun _ => True) ((⟨f, values⟩ : Arguments).handle w position) := by
  unfold Arguments.handle
  split
  · trivial
  · exact expected position _

theorem bytes (position : Nat) :
    f.Checks (fun _ => True) ((⟨f, values⟩ : Arguments).bytes position) := by
  unfold Arguments.bytes
  split
  · trivial
  · exact expected position _

theorem text (position : Nat) :
    f.Checks (fun _ => True) ((⟨f, values⟩ : Arguments).text position) :=
  map (bytes position) fun _ _ => trivial

theorem optionalText (position : Nat) :
    f.Checks (fun _ => True) ((⟨f, values⟩ : Arguments).optionalText position) := by
  unfold Arguments.optionalText
  split
  · trivial
  · exact map (text position) fun _ _ => trivial

theorem flags (position : Nat) :
    f.Checks (fun _ => True) ((⟨f, values⟩ : Arguments).flags position) := by
  unfold Arguments.flags
  split
  · trivial
  · exact expected position _

theorem optionalFlags (position : Nat) :
    f.Checks (fun _ => True) ((⟨f, values⟩ : Arguments).optionalFlags position) := by
  unfold Arguments.optionalFlags
  split
  · trivial
  · exact flags position

theorem optionalTable (position : Nat) :
    f.Checks (fun _ => True) ((⟨f, values⟩ : Arguments).optionalTable position) := by
  unfold Arguments.optionalTable
  split
  · trivial
  · trivial
  · exact expected position _

theorem functionAt (position : Nat) :
    f.Checks (fun _ => True) ((⟨f, values⟩ : Arguments).functionAt position) := by
  unfold Arguments.functionAt
  split
  · trivial
  · exact expected position _

/-- Settings that cannot be read are a wrong first argument. -/
theorem settings : f.Checks (fun _ => True) (Request.settings ⟨f, values⟩) := by
  refine bind (optionalText 1) fun text _ => ?_
  split
  · trivial
  · rename_i text
    cases Settings.ofText text with
    | error e => exact ⟨1, e.message, rfl⟩
    | ok s => trivial

end LibraryFunction.Checks

namespace Request

/-- A bundle is asked for with something in it. -/
def IsFull : Request → Prop
  | .bundle _ vs => vs ≠ []
  | _ => True

/-- **Every check names the function**, and what passes all checks asks for no empty
bundle. -/
theorem checks_ofCall (w : World) (f : LibraryFunction) (args : List HostValue) :
    f.Checks IsFull (ofCall w f args) := by
  cases f with
  | new => exact .bind .settings fun _ _ => trivial
  | eval => exact .bind (.handle 1) fun _ _ => .bind (.text _) fun _ _ => trivial
  | call => exact .bind (.handle 1) fun _ _ => .bind (.text _) fun _ _ => trivial
  | callt =>
    exact .bind (.handle 1) fun _ _ => .bind (.text _) fun _ _ =>
      .bind (.optionalTable _) fun _ _ => trivial
  | makearglist => exact .bind (.handle 1) fun _ _ => .bind (.optionalTable 2) fun _ _ => trivial
  | getvar =>
    exact .bind (.handle 1) fun _ _ => .bind (.text 2) fun _ _ =>
      .bind (.optionalFlags 3) fun _ _ => trivial
  | getarray =>
    exact .bind (.handle 1) fun _ _ => .bind (.text 2) fun _ _ => .bind (.optionalText 3) fun _ _ =>
      .bind (.optionalFlags 4) fun _ _ => trivial
  | setvar =>
    exact .bind (.handle 1) fun _ _ => .bind (.text 2) fun _ _ =>
      .bind (.optionalFlags 4) fun _ _ => trivial
  | setarray =>
    exact .bind (.handle 1) fun _ _ => .bind (.text 2) fun _ _ => .bind (.optionalText 3) fun _ _ =>
      .bind (.optionalFlags 5) fun _ _ => trivial
  | unsetvar =>
    exact .bind (.handle 1) fun _ _ => .bind (.text 2) fun _ _ =>
      .bind (.optionalFlags 3) fun _ _ => trivial
  | unsetarray =>
    exact .bind (.handle 1) fun _ _ => .bind (.text 2) fun _ _ => .bind (.optionalText 3) fun _ _ =>
      .bind (.optionalFlags 4) fun _ _ => trivial
  | tracevar =>
    exact .bind (.handle 1) fun _ _ => .bind (.text 2) fun _ _ => .bind (.optionalText 3) fun _ _ =>
      .bind (.flags 4) fun _ _ => .bind (.functionAt 5) fun _ _ => trivial
  | untracevar =>
    exact .bind (.handle 1) fun _ _ => .bind (.text 2) fun _ _ => .bind (.optionalText 3) fun _ _ =>
      .bind (.flags 4) fun _ _ => .bind (.functionAt 5) fun _ _ => trivial
  | register =>
    exact .bind (.handle 1) fun _ _ => .bind (.text 2) fun _ _ =>
      .bind (.functionAt 3) fun _ _ => trivial
  | unregister => exact .bind (.handle 1) fun _ _ => .bind (.text 2) fun _ _ => trivial
  | fromutf8 =>
    exact .bind (.handle 1) fun _ _ => .bind (.bytes 2) fun _ _ =>
      .bind (.optionalText 3) fun _ _ => trivial
  | toutf8 =>
    exact .bind (.handle 1) fun _ _ => .bind (.bytes 2) fun _ _ =>
      .bind (.optionalText 3) fun _ _ => trivial
  | getencs => exact .bind (.handle 1) fun _ _ => trivial
  | vals =>
    unfold ofCall
    dsimp only
    split
    · exact ⟨2, _, rfl⟩
    · rename_i hlength
      refine .bind (.handle 1) fun _ _ => fun hempty => hlength ?_
      exact Nat.le_of_sub_eq_zero (List.length_drop.symm.trans (congrArg List.length hempty))
  | checkflags =>
    exact .bind (.handle 1) fun _ _ => .bind (.flags 2) fun _ _ =>
      .bind (.mapM .flags _) fun _ _ => trivial
  | tostring =>
    unfold ofCall
    dsimp only
    split
    · exact True.intro
    · exact .bind (.handle 1) fun _ _ => trivial

end Request

namespace Bridge

theorem always_create (hkind : "InitializationError" ≠ kind) (s : Settings) :
    (create s).Always (Spares kind) := by
  have habandon : ∀ handle message, (abandon handle message).Always (Spares kind) :=
    fun _ _ => always_then fun _ => spares_error hkind
  have hprepare : ∀ handle i, (prepare handle i s).Always (Spares kind) := by
    intro handle i
    refine always_then fun created => ?_
    split
    · refine always_then fun status => ?_
      split
      · exact always_then fun _ => habandon _ _
      · exact spares_ok _
    · exact habandon _ _
  refine always_then fun i => always_then fun status => ?_
  split
  · exact always_then fun _ => always_then fun _ => spares_error hkind
  · exact always_then fun _ => hprepare _ i

theorem always_withEncoding (hkind : kind ≠ "EvalError") (hencoding : kind ≠ "EncodingError")
    (h : Nat) (name : Option String) (k : Encoding → Bytes) :
    (withEncoding h name k).Always (Spares kind) := by
  refine always_withLive hkind fun i => always_then fun e => ?_
  split
  · exact spares_ok _
  · exact always_then fun _ => spares_error hencoding.symm

theorem always_traceVar (hkind : kind ≠ "EvalError") (h : Nat) (name : String)
    (key : Option String) (flags : Flags) (function : Nat) :
    (traceVar h name key flags function).Always (Spares kind) := by
  refine always_withLive hkind fun i => always_then fun installed => ?_
  dsimp only
  split
  all_goals
    refine always_then fun status => ?_
    split
    · exact always_resultError hkind i
    · exact always_then fun _ => spares_ok _

end Bridge

namespace Request

open Bridge

/-- **What passed its checks does not fail with an error of its arguments any more.** -/
theorem always_perform {r : Request} (hr : r.IsFull) :
    r.perform.Always (Spares "ArgumentError") := by
  have heval : "ArgumentError" ≠ "EvalError" := by decide
  have hconversion : "ArgumentError" ≠ "ConversionError" := by decide
  have hinitialization : "InitializationError" ≠ "ArgumentError" := by decide
  cases r with
  | create s =>
    have hobject : (createObject s).Always (Spares "ArgumentError") := by
      refine .bind (always_create hinitialization s) fun created hcreated => ?_
      split
      · exact spares_error (hcreated _ rfl)
      · exact always_then fun _ => spares_ok _
    exact hobject.map_result _
  | eval h script =>
    exact (always_withLive heval fun i => always_then fun _ => always_then fun status =>
      always_finish heval i status).map_result _
  | call h command args =>
    exact (always_withLive heval fun i => always_withConverted hconversion fun _ =>
      always_dispatch heval i _).map_result _
  | callTable h command table =>
    refine (always_withLive heval fun i => ?_).map_result _
    split
    · exact always_dispatch heval i _
    · exact always_withConverted hconversion fun _ => always_dispatch heval i _
  | makeArgList h table =>
    refine (always_then fun w => ?_).map_result _
    cases table with
    | none => exact always_then fun _ => spares_ok _
    | some id => exact always_withConverted hconversion fun _ => always_then fun _ => spares_ok _
  | getVar h name key flags =>
    exact (always_withLive heval fun i => always_then fun _ =>
      always_finishAccess heval i _).map_result _
  | setVar h name key value flags =>
    exact (always_withLive heval fun i => always_withConverted hconversion fun _ =>
      always_then fun _ => always_finishAccess heval i _).map_result _
  | unsetVar h name key flags =>
    refine (always_withLive heval fun i => always_then fun status => ?_).map_result _
    split
    · exact always_resultError heval i
    · exact spares_ok _
  | traceVar h name key flags function =>
    exact (always_traceVar heval h name key flags function).map_result _
  | untraceVar h name key flags function =>
    refine (always_withLive heval fun i => always_then fun _ =>
      always_then fun s => ?_).map_result _
    split
    · exact always_then fun _ => spares_ok _
    · exact spares_ok _
  | register h name function =>
    refine (always_withLive heval fun i => always_then fun created => ?_).map_result _
    split
    · exact always_then fun _ => spares_ok _
    · exact spares_error heval.symm
  | unregister h name =>
    refine (always_withLive heval fun i => always_then fun _ => ?_).map_result _
    exact spares_ok _
  | toExternal h src encoding =>
    exact (always_withEncoding heval (by decide) h encoding _).map_result _
  | toHost h src encoding =>
    exact (always_withEncoding heval (by decide) h encoding _).map_result _
  | listEncodings h =>
    refine (always_withLive heval fun i => always_then fun _ => always_then fun _ =>
      always_then fun _ => ?_).map_result _
    exact spares_ok _
  | bundle h vs =>
    have hne : vs ≠ [] := hr
    refine (always_withLive heval fun i => ?_).map_result _
    unfold buildBundle
    rw [if_neg fun hempty => hne (List.isEmpty_iff.1 hempty)]
    exact always_withConverted hconversion fun _ => always_then fun _ => always_then fun _ =>
      always_then fun _ => spares_ok _
  | values vs => exact spares_ok _
  | describeHandle h => exact spares_ok _
  | describeBundle b => exact spares_ok _

end Request

namespace LibraryFunction

/-- A call of a library function, up to the point where its error is raised. -/
def attempt (f : LibraryFunction) (args : List HostValue) :
    Program (Except BridgeError (List HostValue)) := do
  match Request.ofCall (← Program.world) f args with
  | .error e => return .error e
  | .ok r => r.perform

theorem run_eq (f : LibraryFunction) (args : List HostValue) :
    f.run args = (do return (← f.attempt args).mapError raised) := by
  refine congrArg Program.get (funext fun w => ?_)
  change (match Request.ofCall w f args with
    | Except.error e => return Except.error (raised e)
    | Except.ok r => do return (← r.perform).mapError raised) = (match Request.ofCall w f args with
    | Except.error e => return Except.error e
    | Except.ok r => r.perform) >>= fun r => return r.mapError raised
  cases Request.ofCall w f args <;> rfl

/-- A library function fails with an error of its arguments if one of the checks fails. -/
theorem refuses_attempt (f : LibraryFunction) (args : List HostValue) :
    (f.attempt args).Refuses "ArgumentError" fun w e => Request.ofCall w f args = .error e := by
  intro handler w cs e w' he
  refine (Program.makes_reading_iff (f := fun w => w)).trans ?_
  dsimp only
  have hchecks := Request.checks_ofCall w f args
  cases hcall : Request.ofCall w f args with
  | error e' =>
    refine Program.makes_done_iff.trans ⟨?_, ?_⟩
    · rintro ⟨rfl, herror, rfl⟩
      exact ⟨congrArg _ (Except.error.inj herror).symm, rfl, rfl⟩
    · rintro ⟨herror, rfl, rfl⟩
      exact ⟨rfl, congrArg _ (Except.error.inj herror).symm, rfl⟩
  | ok r =>
    rw [hcall] at hchecks
    refine (refuses_of_always (Request.always_perform hchecks) handler w cs e w' he).trans
      (and_congr_left fun _ => ?_)
    exact ⟨False.elim, fun h => nomatch h⟩

end LibraryFunction

/-- **Errors at the boundary leave everything as it was.**  Whatever the state of the world
and the arguments: if `call`, `callTable`, `setVar` or the building of a bundle fails with an
error of conversion, then it was the conversion that failed; if a library function fails with
an error of its arguments, then it was one of its checks.  In both cases nothing has been
called and the world is the one from before; and what cannot be converted or does not pass a
check makes the operation fail like that. -/
theorem Bridge.refuses :
    (∀ h command args, (call h command args).Refuses "ConversionError" fun w e =>
        (live? w h).isSome = true ∧ ∃ c, wordsOfEach w args = .error c ∧ e = c.toBridge) ∧
      (∀ h command table, (callTable h command table).Refuses "ConversionError" fun w e =>
        (live? w h).isSome = true ∧ ∃ id, table = some id ∧
          ∃ c, tableWords w (optionMark w h) (w.heap.table id) = .error c ∧ e = c.toBridge) ∧
      (∀ h name key value flags,
        (setVar h name key value flags).Refuses "ConversionError" fun w e =>
          (live? w h).isSome = true ∧
            ∃ c, Marshal.toTarget w.heap value = .error c ∧ e = c.toBridge) ∧
      (∀ i values, (buildBundle i values).Refuses "ConversionError" fun w e =>
        ∃ c, Marshal.toTargets w.heap values = .error c ∧ e = c.toBridge) ∧
      ∀ (f : LibraryFunction) (args : List HostValue),
        f.run args = (do return (← f.attempt args).mapError LibraryFunction.raised) ∧
          (f.attempt args).Refuses "ArgumentError" (fun w e => Request.ofCall w f args = .error e) ∧
            ∀ w e, Request.ofCall w f args = .error e →
              ∃ position message, e = .argument f.name position message := by
  refine ⟨refuses_call, refuses_callTable, refuses_setVar, refuses_buildBundle, fun f args =>
    ⟨f.run_eq args, f.refuses_attempt args, fun w e he => ?_⟩⟩
  have hchecks := Request.checks_ofCall w f args
  rw [he] at hchecks
  exact hchecks

/-- A function among the arguments of a command, and a call of the library without a handle. -/
theorem Bridge.refuses_function :
    Program.Makes Scenario.handle (call 0 "list" [.int 1, .function 3]) (.bridged 10) []
        (.error (ConversionError.noCounterpart "function").toBridge) (.bridged 10) ∧
      Program.Makes Scenario.handle (LibraryFunction.eval.attempt [.nil]) (.bridged 10) []
        (.error (.argument "eval" 1 "ltcl.Interp expected, got nil")) (.bridged 10) := by
  have hwords : wordsOfEach (.bridged 10) [.int 1, .function 3] =
      .error (.noCounterpart "function") := by
    have hint : wordsOf (.bridged 10) (.int 1) = .ok [.int 1] := by
      rw [wordsOf, Marshal.toTarget, Marshal.convert]
      rfl
    have hfunction : wordsOf (.bridged 10) (.function 3) = .error (.noCounterpart "function") := by
      rw [wordsOf, Marshal.toTarget, Marshal.convert] <;> first | rfl | (intros; contradiction)
    rw [wordsOfEach, List.mapM_cons, List.mapM_cons, hint, hfunction]
    rfl
  exact ⟨(Bridge.refuses.1 0 "list" _ _ _ _ _ _ rfl).2 ⟨⟨rfl, _, hwords, rfl⟩, rfl, rfl⟩,
    ((Bridge.refuses.2.2.2.2 .eval [.nil]).2.1 _ _ _ _ _ rfl).2 ⟨rfl, rfl, rfl⟩⟩

end CommandBridge
