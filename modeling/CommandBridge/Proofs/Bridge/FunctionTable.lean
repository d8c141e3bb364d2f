/-
# The functions that traces call

A handle keeps the function of its traces under a client name, and it keeps it while there
are traces of the client (`Machine.Watched.functions_agree`).  That a trace finds its
function (`World.Finds`) is so at every call and every reply, whatever happens, as long as
the function is not dropped while an unset in progress still holds a trace of the client
that is to install itself again.

That nothing is kept in vain is not so in the middle of an unset, but whenever nothing is
in progress (`FunctionTable.restoration`).  It is lost when the last trace of the client
goes away without being removed and without coming back: when it does not ask for unsets
(`FunctionTable.kept_in_vain`), when it is taken away while it is firing, or with the
interpreter.
-/

import CommandBridge.Proofs.Bridge.Persistence
import CommandBridge.Proofs.Bridge.Registration

namespace CommandBridge

namespace World

/-- A trace of the client is on a variable or element. -/
def Traced (w : World) (i : Nat) (client : String) : Prop :=
  ∃ r t, w.Installed i r t ∧ t.client = client

theorem traced_iff {w : World} {i : Nat} {client : String} :
    w.Traced i client ↔ 0 < (w.interpreter i).vars.clientCount client := by
  rw [Variables.clientCount_pos_iff]
  exact ⟨fun ⟨r, t, ht, hc⟩ => ⟨r, t, ht, hc⟩, fun ⟨r, t, ht, hc⟩ => ⟨r, t, ht, hc⟩⟩

/-- The interpreter is that of the handle and of no other. -/
structure Owns (w : World) (h i : Nat) : Prop where
  own : (w.handle h).interpreter = i
  only : ∀ h' < w.handles.next, (w.handle h').interpreter = i → h' = h

/-- The function of a client is kept if traces of the client are there, and no other one. -/
structure Finds (w : World) (i h f : Nat) : Prop where
  found : w.Traced i (Bridge.clientName f) → w.Keeps h (Bridge.clientName f) f
  only : ∀ f', w.Keeps h (Bridge.clientName f) f' → f' = f

/-- No function is kept under the client name without a trace of the client. -/
def Spares (w : World) (i h : Nat) (client : String) : Prop :=
  w.Traced i client ∨ (w.handle h).functions[client]? = none

/-- The function is kept under its client name if there are traces of the client, and only
then. -/
def Agrees (w : World) (i h f : Nat) : Prop :=
  (w.handle h).functions[Bridge.clientName f]? =
    if 0 < (w.interpreter i).vars.clientCount (Bridge.clientName f) then some f else none

theorem agrees_iff {w : World} {i h f : Nat} :
    w.Agrees i h f ↔ w.Finds i h f ∧ w.Spares i h (Bridge.clientName f) := by
  rw [Agrees, Spares]
  by_cases ht : w.Traced i (Bridge.clientName f)
  · rw [if_pos (traced_iff.1 ht)]
    refine ⟨fun hf => ⟨⟨fun _ => hf, fun f' hf' => ?_⟩, .inl ht⟩, fun h => h.1.found ht⟩
    exact Option.some.inj (hf'.symm.trans hf)
  · rw [if_neg (mt traced_iff.2 ht)]
    refine ⟨fun hf => ⟨⟨fun h => absurd h ht, fun f' hf' => ?_⟩, .inr hf⟩,
      fun h => h.2.resolve_left ht⟩
    exact nomatch hf'.symm.trans hf

/-- The last trace of a client goes away as it may: it is removed, or it comes back, since
it asks for unsets and is not taken away while traces of its variable or element are
firing. -/
def Parts (w : World) (i : Nat) (client : String) (w' : World) : Prop :=
  (∃ r flags client', w' = w.untraced i r flags client') ∨
    ∃ r t, w.Installed i r t ∧ t.client = client ∧ t.Lasting ∧ r ∉ (w.interpreter i).active

end World

/-- The call tells a trace of the client to install itself again. -/
def Call.Recovers (i : Nat) (client : String) (c : Call) : Prop :=
  ∃ r t, t.client = client ∧ c.Reinstates i r t

/-- A trace of the client is told to install itself again. -/
structure Firing.Recovers (x : Firing) (client : String) : Prop where
  client : x.trace.client = client
  told : x.trace.reinstalls x.flags = true

/-- Some unset in progress still holds a trace of the client, which is to install itself
again. -/
def Call.Needs (cs : List Call) (i : Nat) (client : String) : Prop :=
  ∃ x, Call.Pending cs i x ∧ x.Recovers client

theorem Call.Needs.cons {cs : List Call} {i : Nat} {client : String} (h : Needs cs i client)
    (c : Call) : Needs (c :: cs) i client :=
  h.imp fun _ hx => ⟨hx.1.cons c, hx.2⟩

/-- The runs in which a handle keeps the function of its traces: they are those of the
bridge, no command is registered under the client name of the function, no other handle
has the interpreter, and the function is not dropped while an unset in progress still holds
a trace of the client that is to install itself again.  The monitor is in the state `true`
as long as, besides, the interpreter is not disposed of and the last trace of the client
goes away as it may, and if it is told to install itself again, it can be installed; or
when nothing is kept in vain. -/
def agreeing (i h f : Nat) : Monitor Bool where
  calls cs c s w :=
    (∀ j step, c ≠ .interpreterStep j step) ∧
    (∀ j t r flags later, cs = [] → c ≠ .fire j t r flags later) ∧
    (∀ j, c ≠ .deleted j (.forget h (Bridge.clientName f))) ∧
    (s = true → ∀ r t, t.client = Bridge.clientName f → c.Reinstates i r t →
      ∃ vs, (w.interpreter i).vars.addTrace (VarRef.resolve r.name r.key) t = .ok vs)
  changes cs c s w s' w' :=
    w'.Owns h i ∧ (∀ j name, ¬w'.Carries j name h (Bridge.clientName f)) ∧
    (Call.Needs (c :: cs) i (Bridge.clientName f) → w.Keeps h (Bridge.clientName f) f →
      (w'.handle h).functions[Bridge.clientName f]? ≠ none) ∧
    (s' = true → (w'.interpreter i).disposed = false ∧
      (w'.Spares i h (Bridge.clientName f) ∨
        s = true ∧ (w.Traced i (Bridge.clientName f) →
          w'.Traced i (Bridge.clientName f) ∨ w.Parts i (Bridge.clientName f) w')))

/-! ### What installing and removing traces does -/

namespace Bridge

/-- The world after a handle has been given a function to keep. -/
def keeping (w : World) (h : Nat) (key : String) (f : Nat) : World :=
  w.withHandle h fun s => { s with functions := s.functions.insert key f }

/-- The world after a handle has dropped a function. -/
def forgetting (w : World) (h : Nat) (key : String) : World :=
  w.withHandle h fun s => { s with functions := s.functions.erase key }

section Tables

variable {w : World} {h h' f : Nat} {key key' : String}

theorem functions_keeping :
    ((keeping w h key f).handle h').functions[key']? =
      if h = h' ∧ key = key' then some f else (w.handle h').functions[key']? := by
  rw [keeping, World.handle_withHandle]
  by_cases hh : h = h'
  · subst hh
    rw [if_pos rfl]
    dsimp only
    rw [getElem?_insert_name]
    by_cases hk : key = key'
    · rw [if_pos hk, if_pos ⟨rfl, hk⟩]
    · rw [if_neg hk, if_neg fun he => hk he.2]
  · rw [if_neg hh, if_neg fun he => hh he.1]

theorem functions_forgetting :
    ((forgetting w h key).handle h').functions[key']? =
      if h = h' ∧ key = key' then none else (w.handle h').functions[key']? := by
  rw [forgetting, World.handle_withHandle]
  by_cases hh : h = h'
  · subst hh
    rw [if_pos rfl]
    dsimp only
    rw [getElem?_erase_name]
    by_cases hk : key = key'
    · rw [if_pos hk, if_pos ⟨rfl, hk⟩]
    · rw [if_neg hk, if_neg fun he => hk he.2]
  · rw [if_neg hh, if_neg fun he => hh he.1]

/-- The handle that is changed is there afterwards and has the interpreter that it had. -/
theorem owner_withHandle {i j : Nat} {g : Handle → Handle}
    (hg : ∀ s, (g s).interpreter = s.interpreter) (howns : (w.withHandle h' g).Owns h i)
    (hj : (w.handle h').interpreter = j) : h' = h ↔ j = i := by
  have hown : ((w.withHandle h' g).handle h').interpreter = j := by
    rw [World.handle_withHandle, if_pos rfl, hg, hj]
  constructor
  · rintro rfl
    exact hown.symm.trans howns.own
  · rintro rfl
    refine howns.only h' ?_ hown
    change h' < max w.handles.next (h' + 1)
    omega

theorem owner_keeping {i j g : Nat} (howns : (keeping w h' key g).Owns h i)
    (hj : (w.handle h').interpreter = j) : h' = h ↔ j = i :=
  owner_withHandle (g := fun s => { s with functions := s.functions.insert key g }) (fun _ => rfl)
    howns hj

theorem owner_forgetting {i j : Nat} (howns : (forgetting w h' key).Owns h i)
    (hj : (w.handle h').interpreter = j) : h' = h ↔ j = i :=
  owner_withHandle (g := fun s => { s with functions := s.functions.erase key }) (fun _ => rfl)
    howns hj

end Tables

section Abides

variable {σ : Type} {M : Monitor σ} {K : M.Contract} {cs : List Call} {c : Call} {s : σ}
  {w : World} {h f : Nat} {name : String} {key : Option String} {flags : Flags}
  {Q : Except BridgeError Unit → σ → World → Prop}

theorem interpreter_of_live? {i : Nat} (hi : live? w h = some i) :
    (w.handle h).interpreter = i := by
  unfold live? at hi
  dsimp only at hi
  split at hi
  · cases hi
  · exact Option.some.inj hi

/-- Installing a trace refuses, leaves the traces as they are or adds one, and then the
handle keeps the function. -/
theorem abides_traceVar (hK : ∀ s w s' w', K.Change s w s' w')
    (hgone : live? w h = none → Q (.error deletedError) s w)
    (hrefused : ∀ i v s', live? w h = some i →
      M.changes cs c s w s' (w.withInterpreter i fun s => { s with result := v }) →
      ∀ e, Q (.error e) s' (w.withInterpreter i fun s => { s with result := v }))
    (hagain : ∀ i, live? w h = some i → w.Traced i (clientName f) → ∀ s',
      M.changes cs c s w s' (keeping w h (clientName f) f) →
      Q (.ok ()) s' (keeping w h (clientName f) f))
    (hjoined : ∀ i vs s₁, live? w h = some i →
      (w.interpreter i).vars.addTrace (VarRef.resolve name key) (traceOf h flags f) = .ok vs →
      M.changes cs c s w s₁ (w.withInterpreter i fun s => { s with vars := vs }) → ∀ s',
      M.changes cs c s₁ (w.withInterpreter i fun s => { s with vars := vs }) s'
        (keeping (w.withInterpreter i fun s => { s with vars := vs }) h (clientName f) f) →
      Q (.ok ()) s'
        (keeping (w.withInterpreter i fun s => { s with vars := vs }) h (clientName f) f)) :
    (traceVar h name key flags f).Abides K cs c Q s w := by
  refine Program.abides_reading_iff.2 ?_
  cases hi : live? w h with
  | none => exact hgone hi
  | some i =>
    refine Program.abides_reading_iff.2 ?_
    split
    · rename_i hinstalled
      obtain ⟨t, ht, hkey⟩ := List.any_eq_true.1 hinstalled
      have hclient : t.client = clientName f := beq_iff_eq.1 (Bool.and_eq_true_iff.1 hkey).1
      exact fun s' hs' => ⟨hK .., hagain i hi ⟨_, t, ht, hclient⟩ s' hs'⟩
    · refine Program.Abides.bind (Program.abides_reading_iff.2 ?_)
      dsimp only
      split
      · rename_i vs hadd
        exact fun s₁ hs₁ => ⟨hK .., fun s' hs' => ⟨hK .., hjoined i vs s₁ hi hadd hs₁ s' hs'⟩⟩
      · exact fun s' hs' => ⟨hK .., hrefused i _ s' hi hs' _⟩

/-- Removing a trace may leave none of its client, and then the handle drops the function. -/
theorem abides_untraceVar (hK : ∀ s w s' w', K.Change s w s' w')
    (hgone : live? w h = none → Q (.error deletedError) s w)
    (hleft : ∀ i s', live? w h = some i →
      M.changes cs c s w s' (w.untraced i (VarRef.resolve name key) (traceFlags flags)
        (clientName f)) →
      (w.untraced i (VarRef.resolve name key) (traceFlags flags) (clientName f)).Traced i
        (clientName f) →
      Q (.ok ()) s' (w.untraced i (VarRef.resolve name key) (traceFlags flags) (clientName f)))
    (hlast : ∀ i s₁, live? w h = some i →
      M.changes cs c s w s₁ (w.untraced i (VarRef.resolve name key) (traceFlags flags)
        (clientName f)) →
      ¬(w.untraced i (VarRef.resolve name key) (traceFlags flags) (clientName f)).Traced i
        (clientName f) → ∀ s',
      M.changes cs c s₁ (w.untraced i (VarRef.resolve name key) (traceFlags flags) (clientName f))
        s' (forgetting (w.untraced i (VarRef.resolve name key) (traceFlags flags) (clientName f)) h
          (clientName f)) →
      Q (.ok ()) s' (forgetting (w.untraced i (VarRef.resolve name key) (traceFlags flags)
        (clientName f)) h (clientName f))) :
    (untraceVar h name key flags f).Abides K cs c Q s w := by
  refine Program.abides_reading_iff.2 ?_
  cases hi : live? w h with
  | none => exact hgone hi
  | some i =>
    refine Program.abides_update_iff.2 fun s₁ hs₁ => ⟨hK .., Program.abides_reading_iff.2 ?_⟩
    dsimp only
    split
    · rename_i hcount
      have hnone := mt World.traced_iff.1 (Nat.not_lt.2 (Nat.le_of_eq hcount))
      exact fun s' hs' => ⟨hK .., hlast i s₁ hi hs₁ hnone s' hs'⟩
    · rename_i hcount
      exact hleft i s₁ hi hs₁ (World.traced_iff.2 (Nat.pos_of_ne_zero hcount))

end Abides

end Bridge

namespace FunctionTable

open Bridge

variable {i h f j g : Nat} {cs : List Call} {c : Call} {α : Type}

/-! ### Nothing is kept in vain -/

/-- Nothing is to be kept in vain, and every trace of the client that comes back sees to
it. -/
def restoration (i h f : Nat) : Restoration where
  interp := i
  monitor := agreeing i h f
  There w := w.Spares i h (clientName f)
  Brings _ t := t.client = clientName f
  mono hmore hsame := Or.imp (fun ⟨r, t, ht, hclient⟩ => ⟨r, t, hmore r t ht, hclient⟩)
    fun hnone => by
      rw [hsame]
      exact hnone
  brought hclient ht := .inl ⟨_, _, ht, hclient⟩
  installs hs := hs.2.2.2 rfl _ _
  since hs := (hs.2.2.2 rfl).2.imp_right And.left
  spared hs := (hs.2.2.2 rfl).1
  departs := by
    intro cs c s w r groups vs hdetach hs hthere hgone
    have hkept : (w.handle h).functions[clientName f]? ≠ none := fun hnone => hgone (.inr hnone)
    obtain hspares | ⟨-, hparts⟩ := (hs.2.2.2 rfl).2
    · exact absurd hspares hgone
    · obtain htraced | ⟨r', flags, client, huntraced⟩ | ⟨r', t, hin, hclient, hlasting, hquiet⟩ :=
        hparts (hthere.resolve_right hkept)
      · exact absurd (.inl htraced) hgone
      · -- an unset is no removal
        have hholds := Variables.holds_removeTrace (w.interpreter i).vars r' flags client r
        have hvars := congrArg (fun w : World => (w.interpreter i).vars.holds r) huntraced
        rw [World.untraced, World.interpreter_withInterpreter, World.interpreter_withInterpreter,
          if_pos rfl, if_pos rfl] at hvars
        obtain ⟨hbefore, hafter⟩ := Variables.holds_detach hdetach
        cases hafter.symm.trans (hvars.trans (hholds.trans hbefore))
      · refine ⟨r', t, hclient, hlasting, hin, fun hleft => hgone (.inl ⟨r', t, ?_, hclient⟩),
          hquiet⟩
        rw [World.Installed, World.interpreter_withInterpreter_self]
        exact hleft

/-- A function is not kept in vain if it is that of a trace. -/
theorem spares_keeping {w : World} {h' : Nat} {key : String} (hw : w.Spares i h (clientName f))
    (htraced : h' = h → key = clientName f → w.Traced i (clientName f)) :
    (keeping w h' key g).Spares i h (clientName f) := by
  refine Classical.or_iff_not_imp_left.2 fun hnone => ?_
  rw [functions_keeping, if_neg fun he => hnone (htraced he.1 he.2)]
  exact hw.resolve_left hnone

theorem spares_forgetting {w : World} {h' : Nat} {key : String}
    (hw : w.Spares i h (clientName f) ∨ (h' = h ∧ key = clientName f)) :
    (forgetting w h' key).Spares i h (clientName f) := by
  refine Classical.or_iff_not_imp_left.2 fun hnone => ?_
  rw [functions_forgetting]
  split
  · rfl
  · rename_i hne
    exact (hw.resolve_right hne).resolve_left hnone

/-- Removing a trace of one client leaves those of another one. -/
theorem traced_untraced {w : World} {r : VarRef} {flags : Flags} {client client' : String}
    (hne : ¬(j = i ∧ client' = client)) (hw : w.Traced i client) :
    (w.untraced j r flags client').Traced i client := by
  obtain ⟨r', t, ht, rfl⟩ := hw
  refine ⟨r', t, ?_, rfl⟩
  rw [World.Installed, World.untraced, World.interpreter_withInterpreter]
  split
  · rename_i hj
    subst hj
    dsimp only
    rw [Variables.tracesOn_removeTrace_eq]
    split
    · rename_i hr
      subst hr
      refine (List.mem_eraseP_of_neg fun hmeant => hne ⟨rfl, ?_⟩).2 ht
      exact (beq_iff_eq.1 (Bool.and_eq_true_iff.1 hmeant).1).symm
    · exact ht
  · exact ht

theorem keeping_withHandle {h' : Nat} {g : Handle → Handle}
    (hg : ∀ w : World, w.Spares i h (clientName f) →
      (w.withHandle h' g).Spares i h (clientName f)) :
    (restoration i h f).Keeping cs c (Program.modify fun w => w.withHandle h' g) :=
  Restoration.keeping_update (f := fun w => ((), w.withHandle h' g)) fun w => ⟨rfl, id, hg w⟩

/-- The function of a trace is kept when the trace is there. -/
theorem keeping_traceVar (handle : Nat) (name : String) (key : Option String) (flags : Flags)
    (g : Nat) : (restoration i h f).Keeping cs c (traceVar handle name key flags g) := by
  intro a D Q _ s w hw
  have hkeep : ∀ {s s' : Bool} {w : World} {j : Nat}, (restoration i h f).Holds a D Q s w →
      (w.handle handle).interpreter = j → w.Traced j (clientName g) →
      (agreeing i h f).changes cs c s w s' (keeping w handle (clientName g) g) →
      (restoration i h f).Holds a D Q s' (keeping w handle (clientName g) g) := by
    intro s s' w j hw hj htraced hs
    refine hw.change hs hw.active id fun _ _ ht => spares_keeping ht fun hh hk => ?_
    rw [← hk, ← (owner_keeping hs.1 hj).1 hh]
    exact htraced
  refine abides_traceVar (fun _ _ _ _ => trivial) (fun _ => hw) ?refused ?again ?joined
  case refused =>
    exact fun j v s' _ hs' _ => hw.steady hs' (w.steady_withInterpreter j
      (f := fun s => { s with result := v }) rfl rfl rfl)
  case again => exact fun j hj htraced s' hs' => hkeep hw (interpreter_of_live? hj) htraced hs'
  case joined =>
    intro j vs s₁ hj hadd hs₁ s' hs'
    refine hkeep (hw.withVars hs₁ fun _ _ => Restoration.there_withVars fun _ _ =>
      Restoration.mem_addTrace hadd) (interpreter_of_live? (w := w) hj) ?_ hs'
    refine ⟨VarRef.resolve name key, traceOf handle flags g, ?_, rfl⟩
    rw [World.Installed, World.interpreter_withInterpreter_self]
    dsimp only
    rw [Variables.tracesOn_addTrace hadd, if_pos rfl]
    exact List.mem_cons_self

/-- With the last trace of the client its function goes, too. -/
theorem keeping_untraceVar (handle : Nat) (name : String) (key : Option String) (flags : Flags)
    (g : Nat) : (restoration i h f).Keeping cs c (untraceVar handle name key flags g) := by
  intro a D Q _ s w hw
  have hremoved : ∀ {j : Nat} {s₁ : Bool} {Q : Prop}, (restoration i h f).Holds a D Q s w →
      (Q → w.Spares i h (clientName f) → (w.untraced j (VarRef.resolve name key) (traceFlags flags)
        (clientName g)).Spares i h (clientName f)) →
      (agreeing i h f).changes cs c s w s₁ (w.untraced j (VarRef.resolve name key)
        (traceFlags flags) (clientName g)) →
      (restoration i h f).Holds a D Q s₁ (w.untraced j (VarRef.resolve name key)
        (traceFlags flags) (clientName g)) :=
    fun hw ht hs₁ => hw.withVars hs₁ fun hQ _ => ht hQ
  have hspares : ∀ {j : Nat}, ¬(j = i ∧ clientName g = clientName f) →
      w.Spares i h (clientName f) → (w.untraced j (VarRef.resolve name key) (traceFlags flags)
        (clientName g)).Spares i h (clientName f) := fun hne => Or.imp_left (traced_untraced hne)
  refine abides_untraceVar (fun _ _ _ _ => trivial) (fun _ => hw) ?left ?last
  case left =>
    refine fun j s' _ hs' htraced => hremoved hw (fun _ hw => ?_) hs'
    by_cases hown : j = i ∧ clientName g = clientName f
    · obtain ⟨rfl, hclient⟩ := hown
      exact .inl (hclient ▸ htraced)
    · exact hspares hown hw
  case last =>
    intro j s₁ hj hs₁ _ s' hs'
    have howner := owner_forgetting hs'.1 (interpreter_of_live? (w := w) hj)
    by_cases hown : j = i ∧ clientName g = clientName f
    · have hnone := hremoved (Q := False) ⟨hw.active, hw.disposed, False.elim⟩ False.elim hs₁
      exact ⟨hnone.active, hnone.disposed, fun _ _ => spares_forgetting
        (.inr ⟨howner.2 hown.1, hown.2⟩)⟩
    · have hleft := hremoved hw (fun _ => hspares hown) hs₁
      exact hleft.change hs' hleft.active id fun _ _ ht => spares_forgetting (.inl ht)

/-- In the runs that are watched no command is registered under the client name: the
command would be created before its function is kept. -/
theorem takes_register_own {K : (agreeing i h f).Contract} {I : Bool → World → Prop}
    (htake : ∀ j, Program.Takes K cs c I I (Interp.takeCommand j (clientName f)))
    (hdelete : ∀ j action, Program.Takes K cs c I I (Interp.runDelete j action)) :
    Program.Takes K cs c I I (register h (clientName f) g) := by
  intro s w hw
  refine Program.abides_reading_iff.2 ?_
  split
  · rename_i j _
    refine Program.Abides.bind (Program.abides_reading_iff.2 ?_)
    split
    · exact hw
    · refine Program.Abides.bind ((htake j s w hw).imp fun _ s₁ w₁ hw₁ =>
        Program.Abides.bind ((hdelete j _ s₁ w₁ hw₁).imp fun _ s₂ w₂ _ s' hs' => ?_))
      exact absurd (Registration.carries_insert.2 ((if_pos ⟨rfl, rfl⟩).mpr rfl)) (hs'.2.1 j _)
  · exact hw

/-- Commands are kept under other keys. -/
theorem keeping_register (handle : Nat) (name : String) (g : Nat)
    (hcreate : ∀ j, (restoration i h f).Keeping cs c
      (Interp.createCommand j name (registeredCommand handle name))) :
    (restoration i h f).Keeping cs c (register handle name g) := by
  by_cases hown : handle = h ∧ name = clientName f
  · obtain ⟨rfl, rfl⟩ := hown
    have htake : ∀ j, (restoration i handle f).Keeping cs c
        (Interp.takeCommand j (clientName f)) := fun j =>
      Restoration.keeping_steady fun w => w.steady_withInterpreter j
        (f := fun s => { s with commands := s.commands.erase (clientName f) }) rfl rfl rfl
    exact fun a D Q hQ => takes_register_own (fun j => htake j a D Q hQ) fun _ _ =>
      Restoration.keeping_runDelete _ a D Q hQ
  · exact Restoration.sequential.register hcreate (keeping_withHandle fun _ hw =>
      spares_keeping hw fun hh hk => absurd ⟨hh, hk⟩ hown)

theorem served {s : Bool} {w : World} (hs : (agreeing i h f).calls cs c s w) :
    (restoration i h f).Served cs c where
  register := keeping_register
  traceVar := keeping_traceVar
  untraceVar := keeping_untraceVar
  forget _ _ _ _ := keeping_withHandle fun _ hw => spares_forgetting (.inl hw)
  removeTrace j step hstep := absurd hstep (hs.1 j step)

/-! ### Every trace finds its function -/

/-- A call leaves the functions where traces find them, and as long as an unset in progress
still holds a trace of the client that is to install itself again it does not drop them.  A
trace that is told to install itself again finds its function, too. -/
def contract (i h f : Nat) : (agreeing i h f).Contract where
  Pre _ c _ w := w.Finds i h f ∧ (c.Recovers i (clientName f) → w.Keeps h (clientName f) f)
  Post cs c _ w _ w' := w'.Finds i h f ∧
    (Call.Needs (c :: cs) i (clientName f) → w.Keeps h (clientName f) f →
      w'.Keeps h (clientName f) f)

/-- Traces find their function, and under `A` it is kept in any case. -/
def Held (i h f : Nat) (A : Prop) (_ : Bool) (w : World) : Prop :=
  w.Finds i h f ∧ (A → w.Keeps h (clientName f) f)

/-- Programs of the call `c` after which things are as before. -/
abbrev Finding (i h f : Nat) (cs : List Call) (c : Call) (A : Prop) : Program.Property :=
  fun _ p => p.Takes (contract i h f) cs c (Held i h f A) (Held i h f A)

variable {A : Prop} {s s' : Bool} {w w' : World}

theorem finding_sequential : Program.Sequential (Finding i h f cs c A) :=
  Program.Takes.sequential _ _ _ _

/-- Traces of the client may go away while the functions stay. -/
theorem Held.fewer (hw : Held i h f A s w)
    (htraced : w'.Traced i (clientName f) → w.Traced i (clientName f))
    (hsame : (w'.handle h).functions[clientName f]? = (w.handle h).functions[clientName f]?) :
    Held i h f A s' w' := by
  have hkeeps : ∀ {g}, w'.Keeps h (clientName f) g ↔ w.Keeps h (clientName f) g := by
    intro g
    rw [World.Keeps, World.Keeps, hsame]
  exact ⟨⟨fun ht => hkeeps.2 (hw.1.found (htraced ht)), fun g hg => hw.1.only g (hkeeps.1 hg)⟩,
    fun hA => hkeeps.2 (hw.2 hA)⟩

theorem Held.withVars {vs : Variables} (hw : Held i h f A s w)
    (hvs : ∀ r, ∀ t ∈ vs.tracesOn r, t ∈ (w.interpreter j).vars.tracesOn r) :
    Held i h f A s' (w.withInterpreter j fun s => { s with vars := vs }) := by
  refine hw.fewer (fun ⟨r, t, ht, hclient⟩ => ⟨r, t, ?_, hclient⟩) rfl
  rw [World.Installed, World.interpreter_withInterpreter] at ht
  split at ht
  · rename_i hj
    exact hj ▸ hvs r t ht
  · exact ht

theorem Held.steady (hw : Held i h f A s w) (hsteady : w.Steady w') : Held i h f A s' w' := by
  refine hw.fewer (fun ⟨r, t, ht, hclient⟩ => ⟨r, t, ?_, hclient⟩) (by rw [hsteady.functions])
  rwa [World.Installed, hsteady.vars] at ht

theorem finding_steady {k : World → α × World} (hk : ∀ w : World, w.Steady (k w).2) :
    Finding i h f cs c A (Program.update k) :=
  .update fun _ w _ hw _ => ⟨trivial, hw.steady (hk w)⟩

theorem finding_modifyInterpreter {k : Interpreter → Interpreter}
    (hk : ∀ s, (k s).vars = s.vars) :
    Finding i h f cs c A (Program.modifyInterpreter j k) := by
  refine .update (f := fun w => ((), w.withInterpreter j k)) fun _ w _ hw _ => ⟨trivial,
    hw.fewer (fun ⟨r, t, ht, hclient⟩ => ⟨r, t, ?_, hclient⟩) rfl⟩
  rwa [World.Installed, World.apply_withInterpreter (·.vars) (hk _)] at ht

/-- A call that is not told to install a trace again may be made anywhere. -/
theorem finding_request {d : Call} (hd : d.Recovers i (clientName f) → A)
    (hA : A → Call.Needs (d :: c :: cs) i (clientName f)) :
    Finding i h f cs c A (Program.request d) :=
  .request fun _ _ hw _ => ⟨⟨hw.1, fun hre => hw.2 (hd hre)⟩, fun _ _ hpost =>
    ⟨hpost.1, fun h => hpost.2 (hA h) (hw.2 h)⟩⟩

theorem finding_runDelete (hA : A → Call.Needs (c :: cs) i (clientName f))
    (action : Option DeleteAction) : Finding i h f cs c A (Interp.runDelete j action) := by
  cases action with
  | none => exact .pure ()
  | some a =>
    exact finding_request (fun ⟨_, _, _, _, _, heq, _⟩ => nomatch heq) fun h => (hA h).cons _

theorem finding_fail (message : String) : Finding i h f cs c A (Interp.fail j message) :=
  .bind (finding_modifyInterpreter fun _ => rfl) fun _ => .pure _

/-- What is left to fire in the interpreter includes a trace of the client that is to install
itself again. -/
def Left (i f j : Nat) (xs : List Firing) : Prop :=
  j = i ∧ ∃ x ∈ xs, x.Recovers (clientName f)

/-- The traces of the client that are still to be fired find their function when they are told
to install themselves again: it is not dropped meanwhile. -/
theorem fires (hA : A → Call.Needs (c :: cs) i (clientName f)) :
    Program.Fires (contract i h f) cs c j fun xs => Held i h f (A ∨ Left i f j xs) where
  dropped xs _ _ _ hw := ⟨hw.1, fun hk => hw.2 (hk.imp_right fun ⟨hj, x, hx, hre⟩ =>
    ⟨hj, x, List.mem_append_right xs hx, hre⟩)⟩
  fire y later := by
    refine .request fun s w hw _ => ⟨⟨hw.1, fun ⟨r, t, hclient, flags, later', heq, hre⟩ => ?_⟩,
      fun s' w' hpost => ⟨hpost.1, fun hk => hpost.2 ?_ ?_⟩⟩
    · obtain ⟨hj, rfl, -, rfl, -⟩ := Call.fire.inj heq
      exact hw.2 (.inr ⟨hj, y, List.mem_cons_self, hclient, hre⟩)
    · rcases hk with hk | ⟨rfl, x, hx, hre⟩
      · exact (hA hk).cons _
      · exact ⟨x, Call.pending_fire hx, hre⟩
    · exact hw.2 (hk.imp_right fun ⟨hj, x, hx, hre⟩ => ⟨hj, x, List.mem_cons_of_mem y hx, hre⟩)
  active f _ := finding_modifyInterpreter (k := fun s => { s with active := f s.active })
    fun _ => rfl

theorem Held.weaken {B : Prop} (hw : Held i h f A s w) (hB : B → A) : Held i h f B s w :=
  ⟨hw.1, fun hk => hw.2 (hB hk)⟩

/-- Traces that are fired on an access do not install themselves again. -/
theorem finding_fireTraces (hA : A → Call.Needs (c :: cs) i (clientName f)) (r : VarRef)
    {op : Flags} (hop : op.IsAccess) (flags : Flags) :
    Finding i h f cs c A (Interp.fireTraces j r op flags) := by
  refine fun s w hw => (fires hA).fireTraces hw (fun _ => hw.weaken fun hk =>
    hk.resolve_right ?_) fun _ _ hw => hw.weaken .inl
  rintro ⟨-, x, hx, hre⟩
  obtain ⟨t, -, rfl⟩ := List.mem_map.1 hx
  exact nomatch (t.not_reinstalls_of_isAccess hop flags).symm.trans hre.told

theorem finding_store (r : VarRef) (v : Value) (flags : Flags) :
    Finding i h f cs c A (Interp.store j r v flags) := by
  refine .update fun _ w _ hw _ => ⟨trivial, ?_⟩
  split
  · exact hw
  · rename_i hstore
    exact hw.withVars fun r' t ht => Variables.tracesOn_store hstore r' ▸ ht

/-! ### Unsets and disposals -/

theorem finding_unset (hA : A → Call.Needs (c :: cs) i (clientName f)) (name : String)
    (key : Option String) (flags : Flags) :
    Finding i h f cs c A (Interp.unset j name key flags) := by
  intro s w hw
  refine Program.abides_update_iff.2 fun s' _ => ⟨trivial, ?_⟩
  cases hdetach : (w.interpreter j).vars.detach (VarRef.resolve name key) with
  | error e =>
    have hreport : Finding i h f cs c A (Interp.reportAccess j flags "unset"
        (VarRef.resolve name key) e.message) :=
      finding_sequential.reportAccess (fun _ => finding_modifyInterpreter fun _ => rfl) _ _ _ _
    exact Program.Takes.bind hreport (fun _ => .pure _) _ _ hw
  | ok result =>
    obtain ⟨groups, vs⟩ := result
    have hdetached := Variables.detached hdetach
    -- what the unset has taken away was there
    have hkept : A ∨ Left i f j (Interp.groupFirings (VarRef.resolve name key).name flags.scope
        groups) → w.Keeps h (clientName f) f := by
      rintro (hk | ⟨rfl, x, hx, hre⟩)
      · exact hw.2 hk
      · obtain ⟨g, hg, hx⟩ := List.mem_flatMap.1 hx
        obtain ⟨t, ht, rfl⟩ := List.mem_map.1 hx
        have hin := (List.mem_filter.1 ht).1
        rw [hdetached.traces g hg (Tracing.destroyed_of_reinstalls hre.told)] at hin
        exact hw.1.found ⟨_, t, hin, hre.client⟩
    have hheld : Held i h f _ s w := ⟨hw.1, hkept⟩
    exact Program.Abides.bind (((fires hA).fireUnset _ _ groups s' _ (hheld.withVars
      fun r t ht => (hdetached.sublist r).subset ht)).imp fun _ _ _ hw => hw.weaken .inl)

theorem finding_takeDown (hA : A → Call.Needs (c :: cs) i (clientName f)) :
    Finding i h f cs c A (Interp.takeDown j) := by
  have hclear : ∀ {β : Type} {k : World → β}, Finding i h f cs c A
      (Program.update fun w => (k w, w.withInterpreter j fun s => { s with vars := ∅ })) := by
    refine .update fun _ w _ hw _ => ⟨trivial, hw.withVars fun r t ht => ?_⟩
    rw [Variables.tracesOn_eq, Std.ExtTreeMap.getElem?_empty] at ht
    exact absurd ht List.not_mem_nil
  have hcommands : Finding i h f cs c A (Interp.takeCommands j) := finding_steady fun w =>
    w.steady_withInterpreter j (f := fun s => { s with commands := ∅ }) rfl rfl rfl
  refine .bind hcommands fun _ => .bind (.each fun _ _ => finding_runDelete hA _) fun _ =>
    .bind hclear fun _ => .bind (.each fun _ _ s w hw => ?_) fun _ => hclear
  refine ((fires hA).fireUnset _ _ _ s w (hw.weaken fun hk => hk.resolve_right ?_)).imp
    fun _ _ _ hw => hw.weaken .inl
  rintro ⟨-, x, hx, hre⟩
  obtain ⟨g, -, hx⟩ := List.mem_flatMap.1 hx
  obtain ⟨t, -, rfl⟩ := List.mem_map.1 hx
  exact Tracing.not_reinstalls_destroyed t g hre.told

theorem finding_dispose (hA : A → Call.Needs (c :: cs) i (clientName f)) :
    Finding i h f cs c A (Interp.dispose j) := by
  rw [Interp.dispose_eq]
  refine .get fun w => ?_
  split
  · exact .pure ()
  · exact .bind (finding_modifyInterpreter (k := fun s => { s with disposed := true }) fun _ => rfl)
      fun _ => finding_takeDown hA

/-! ### Installing and removing -/

/-- A trace of the client may join the others where the function is kept. -/
theorem Held.joined {r : VarRef} {t : Trace} {vs : Variables} (hw : Held i h f A s w)
    (hadd : (w.interpreter j).vars.addTrace r t = .ok vs)
    (hkept : j = i → t.client = clientName f → w.Keeps h (clientName f) f) :
    Held i h f A s' (w.withInterpreter j fun s => { s with vars := vs }) := by
  refine ⟨⟨fun ⟨r', t', ht, hclient⟩ => ?_, hw.1.only⟩, hw.2⟩
  change w.Keeps h (clientName f) f
  rw [World.Installed, World.joined_of_addTrace hadd] at ht
  split at ht
  · rename_i hplace
    rcases List.mem_cons.1 ht with rfl | ht
    · exact hkept hplace.1.symm hclient
    · exact hw.1.found ⟨r, t', hplace.1 ▸ ht, hclient⟩
  · exact hw.1.found ⟨r', t', ht, hclient⟩

theorem finding_addTrace {t : Trace} (ht : j = i → t.client = clientName f → A) (name : String)
    (key : Option String) : Finding i h f cs c A (Interp.addTrace j name key t) := by
  intro s w hw
  refine Program.abides_reading_iff.2 ?_
  split
  · rename_i vs hadd
    exact fun s' _ => ⟨trivial, show Held i h f A s' _ from
      hw.joined hadd fun hj hclient => hw.2 (ht hj hclient)⟩
  · exact finding_fail _ s w hw

/-- Under the client name only the function itself is kept. -/
theorem held_keeping {handle : Nat} (honly : ∀ f', w.Keeps h (clientName f) f' → f' = f)
    (hfound : w.Traced i (clientName f) →
      w.Keeps h (clientName f) f ∨ (handle = h ∧ clientName g = clientName f))
    (hkept : A → w.Keeps h (clientName f) f) :
    Held i h f A s (keeping w handle (clientName g) g) := by
  by_cases hown : handle = h ∧ clientName g = clientName f
  · have hg : ∀ f', (keeping w handle (clientName g) g).Keeps h (clientName f) f' ↔ g = f' := by
      intro f'
      rw [World.Keeps, functions_keeping, if_pos hown, Option.some_inj]
    obtain rfl := eq_of_clientName_eq hown.2
    exact ⟨⟨fun _ => (hg _).2 rfl, fun f' hf' => ((hg f').1 hf').symm⟩, fun _ => (hg _).2 rfl⟩
  · have hsame : ∀ f', (keeping w handle (clientName g) g).Keeps h (clientName f) f' ↔
        w.Keeps h (clientName f) f' := by
      intro f'
      rw [World.Keeps, functions_keeping, if_neg hown, World.Keeps]
    exact ⟨⟨fun ht => (hsame _).2 ((hfound ht).resolve_right hown),
      fun f' hf' => honly f' ((hsame f').1 hf')⟩, fun hA => (hsame _).2 (hkept hA)⟩

theorem finding_traceVar (handle : Nat) (name : String) (key : Option String) (flags : Flags)
    (g : Nat) : Finding i h f cs c A (traceVar handle name key flags g) := by
  intro s w hw
  refine abides_traceVar (fun _ _ _ _ => trivial) (fun _ => hw) ?refused ?again ?joined
  case refused =>
    exact fun j v s' _ _ _ => hw.steady (w.steady_withInterpreter j
      (f := fun s => { s with result := v }) rfl rfl rfl)
  case again =>
    exact fun j _ _ s' _ => held_keeping hw.1.only (fun ht => .inl (hw.1.found ht)) hw.2
  case joined =>
    intro j vs s₁ hj hadd _ s' hs'
    refine held_keeping hw.1.only (fun ⟨r', t', ht, hclient⟩ => ?_) hw.2
    rw [World.Installed, World.joined_of_addTrace hadd] at ht
    split at ht
    · rename_i hplace
      rcases List.mem_cons.1 ht with rfl | ht
      · exact .inr ⟨(owner_keeping hs'.1 (interpreter_of_live? (w := w) hj)).2 hplace.1.symm,
          hclient⟩
      · exact .inl (hw.1.found ⟨_, t', hplace.1 ▸ ht, hclient⟩)
    · exact .inl (hw.1.found ⟨r', t', ht, hclient⟩)

/-- The function is dropped when no traces of the client are left, and not while an unset in
progress still holds one that is to install itself again. -/
theorem finding_untraceVar (hA : A → Call.Needs (c :: cs) i (clientName f)) (handle : Nat)
    (name : String) (key : Option String) (flags : Flags) (g : Nat) :
    Finding i h f cs c A (untraceVar handle name key flags g) := by
  intro s w hw
  have hremoved : ∀ (j : Nat) (s₁ : Bool), Held i h f A s₁ (w.untraced j (VarRef.resolve name key)
      (traceFlags flags) (clientName g)) := fun _ _ =>
    hw.withVars fun r _ ht => (Variables.tracesOn_removeTrace _ _ _ _ r).subset ht
  refine abides_untraceVar (fun _ _ _ _ => trivial) (fun _ => hw)
    (fun _ _ _ _ _ => hremoved _ _) fun j s₁ hj _ hnone s' hs' => ?_
  have hleft := hremoved j s₁
  by_cases hown : handle = h ∧ clientName g = clientName f
  · obtain rfl := (owner_forgetting hs'.1 (interpreter_of_live? (w := w) hj)).1 hown.1
    have hdropped : ∀ f', ¬(forgetting (w.untraced j (VarRef.resolve name key) (traceFlags flags)
        (clientName g)) handle (clientName g)).Keeps h (clientName f) f' := by
      intro f' hkeeps
      rw [World.Keeps, functions_forgetting, if_pos hown] at hkeeps
      cases hkeeps
    refine ⟨⟨fun ht => absurd (hown.2 ▸ ht) hnone, fun f' hf' => absurd hf' (hdropped f')⟩,
      fun hkept => absurd ?_ (hs'.2.2.1 (hA hkept) (hleft.2 hkept))⟩
    rw [functions_forgetting, if_pos hown]
  · refine hleft.fewer id ?_
    rw [functions_forgetting, if_neg hown]

theorem finding_register (hA : A → Call.Needs (c :: cs) i (clientName f)) (handle : Nat)
    (name : String) (g : Nat) (hcreate : ∀ j, Finding i h f cs c A
      (Interp.createCommand j name (registeredCommand handle name))) :
    Finding i h f cs c A (register handle name g) := by
  by_cases hown : handle = h ∧ name = clientName f
  · obtain ⟨rfl, rfl⟩ := hown
    exact takes_register_own (fun j => finding_steady fun w => w.steady_withInterpreter j
      (f := fun s => { s with commands := s.commands.erase (clientName f) }) rfl rfl rfl)
      fun _ _ => finding_runDelete hA _
  · refine finding_sequential.register hcreate (.update
      (f := fun w => ((), keeping w handle name g)) fun _ w _ hw _ =>
        ⟨trivial, hw.fewer id ?_⟩)
    rw [functions_keeping, if_neg hown]

/-! ### All programs -/

theorem watchful (hA : A → Call.Needs (c :: cs) i (clientName f)) :
    Program.Watchful (Finding i h f cs c A) where
  toSequential := finding_sequential
  overflow _ := .overflow _
  update := finding_steady
  request hd := finding_request (fun ⟨_, _, _, _, _, heq, _⟩ => by
    subst heq
    exact hd.elim) fun hkept => (hA hkept).cons _
  runDelete _ := finding_runDelete hA
  dispose _ := finding_dispose hA
  fireTraces _ r _ hop := finding_fireTraces hA r hop
  store _ := finding_store
  unset _ := finding_unset hA
  register := finding_register hA
  traceVar := finding_traceVar
  untraceVar := finding_untraceVar hA

/-- Every call leaves the functions where traces find them. -/
theorem holds (i h f : Nat) : (contract i h f).Holds Scenario.handle := by
  intro cs c s w hs hpre
  obtain ⟨hfinds, hready⟩ := hpre
  by_cases hrecovers : c.Recovers i (clientName f)
  · have hkept := hready hrecovers
    obtain ⟨r, t, -, flags, later, rfl, hre⟩ := hrecovers
    have hfire : Finding i h f cs (.fire i t r flags later) (w.Keeps h (clientName f) f)
        (Scenario.fireTrace i t r flags) := by
      rw [Scenario.fireTrace_of_reinstalls hre]
      refine .bind (finding_addTrace (fun _ _ => hkept) _ _) fun status => ?_
      split
      · exact .bind (finding_sequential.reading _) fun _ => .pure _
      · exact .pure _
    exact (hfire s w ⟨hfinds, id⟩).imp fun _ _ _ hw' => ⟨hw'.1, fun _ => hw'.2⟩
  · have hw : Program.Watchful (Finding i h f cs c (Call.Needs (c :: cs) i (clientName f) ∧
        w.Keeps h (clientName f) f)) := watchful And.left
    have hcall : Finding i h f cs c (Call.Needs (c :: cs) i (clientName f) ∧
        w.Keeps h (clientName f) f) (Scenario.handle c) := by
      refine hw.handle (fun j step hstep => absurd hstep (hs.1 j step))
        (fun j t r flags later hfire => ?_) fun j handle key hforget => ?_
      · by_cases hre : t.reinstalls flags = true
        · refine hw.conduct.fireTrace j t r flags (finding_addTrace (fun hj hclient => ?_) _ _)
          exact absurd ⟨r, t, hclient, flags, later, hj ▸ hfire, hre⟩ hrecovers
        · exact hw.conduct.fireTrace_of_not_reinstalls hre
      · refine .update (f := fun w => ((), forgetting w handle key)) fun _ w _ hheld _ => ⟨trivial,
          hheld.fewer id ?_⟩
        rw [functions_forgetting, if_neg]
        rintro ⟨rfl, rfl⟩
        exact hs.2.2.1 j hforget
    exact (hcall s w ⟨hfinds, And.right⟩).imp fun _ _ _ hw' => ⟨hw'.1, fun hu hk => hw'.2 ⟨hu, hk⟩⟩

theorem between (i h f : Nat) : (contract i h f).Between fun _ w => w.Finds i h f where
  pre _ _ _ hs hw := ⟨hw, fun ⟨_, _, _, _, _, heq, _⟩ => absurd heq (hs.2.1 _ _ _ _ _ rfl)⟩
  post _ _ _ _ _ _ hpost := hpost.1
  aside s w _ hw ha := (show Held i h f False s _ from
    Held.steady (s := s) (w := w) ⟨hw, False.elim⟩ ha.steady).1

end FunctionTable

/-- **The function table and the traces agree.**  Whatever calls the host makes one after the
other and however calls lead into each other: at every call and every reply the function of
a client is kept if there are traces of the client or if one of them that was taken away is
told to install itself again, and no other function is kept under the client name.  When
nothing is in progress in the interpreter, it is kept only if there are traces of the
client, as long as the interpreter is not disposed of and the last trace of the client goes
away by being removed or comes back. -/
theorem Machine.Watched.functions_agree {i h f : Nat} {s₀ : Bool} {w₀ : World}
    (hfinds : w₀.Finds i h f) (h₀ : s₀ = true → w₀.Agrees i h f) {root : Call} {m : Machine root}
    {s : Bool} (hm : m.Watched (agreeing i h f) Scenario.handle s₀ w₀ s) :
    (∀ d k, m.code = .call d k → (agreeing i h f).calls m.stack.calls d s m.world →
        m.world.Finds i h f ∧
        (d.Recovers i (Bridge.clientName f) → m.world.Keeps h (Bridge.clientName f) f) ∧
        (Call.Idle i (d :: m.stack.calls) → s = true → m.world.Agrees i h f)) ∧
      ∀ a, m.code = .done a → m.world.Finds i h f ∧
        (Call.Idle i m.stack.calls → s = true → m.world.Agrees i h f) := by
  obtain ⟨hcall, hdone, -⟩ := hm.boundary (FunctionTable.holds i h f)
    (FunctionTable.between i h f) hfinds
  obtain ⟨hcall', hdone'⟩ := Machine.Watched.there (P := FunctionTable.restoration i h f)
    (fun _ _ _ _ => FunctionTable.served) (fun hs => (World.agrees_iff.1 (h₀ hs)).2) hm
  refine ⟨fun d k hd hs => ?_, fun a ha => ?_⟩
  · obtain ⟨hfinds, hready⟩ := hcall d k hd hs
    exact ⟨hfinds, hready, fun hidle hstate =>
      World.agrees_iff.2 ⟨hfinds, hcall' d k hd hs hidle hstate⟩⟩
  · obtain ⟨_, _, hfinds, -⟩ := hdone a ha
    exact ⟨hfinds, fun hidle hstate => World.agrees_iff.2 ⟨hfinds, hdone' a ha hidle hstate⟩⟩

/-! ### A function and its traces -/

namespace World

instance decidableTraced (w : World) (i : Nat) (client : String) : Decidable (w.Traced i client) :=
  decidable_of_iff _ traced_iff.symm

instance decidableOwns (w : World) (h i : Nat) : Decidable (w.Owns h i) :=
  decidable_of_iff ((w.handle h).interpreter = i ∧
      ∀ h' < w.handles.next, (w.handle h').interpreter = i → h' = h)
    ⟨fun hw => ⟨hw.1, hw.2⟩, fun hw => ⟨hw.own, hw.only⟩⟩

instance decidableAgrees (w : World) (i h f : Nat) : Decidable (w.Agrees i h f) :=
  inferInstanceAs (Decidable (_ = _))

/-- Whether no interpreter has a registered command. -/
def unregistered (w : World) : Bool :=
  (List.range w.interpreters.next).all fun i => (w.interpreter i).commands.toList.all fun p =>
    match p.2.procedure with
    | .callRegistered .. => false
    | _ => true

theorem not_carries_of_unregistered {w : World} (hw : w.unregistered = true) (i : Nat)
    (name : String) (h : Nat) (key : String) : ¬w.Carries i name h key := by
  intro hcarries
  by_cases hi : i < w.interpreters.next
  · have hcommands := List.all_eq_true.1 hw i (List.mem_range.2 hi)
    have := List.all_eq_true.1 hcommands (name, Bridge.registeredCommand h key)
      (Std.ExtTreeMap.mem_toList_iff_getElem?_eq_some.2 hcarries)
    cases this
  · rw [Carries, interpreter, Pool.get, Pool.get?_of_next_le (Nat.not_lt.1 hi)] at hcarries
    cases Std.ExtTreeMap.getElem?_empty.symm.trans hcarries

end World

namespace FunctionTable

/-- Whether it can be seen that the monitor may go on saying that the function of a client
is not kept in vain, while it is kept. -/
def kept (i h f : Nat) (r : VarRef) {root : Call} (m : Machine root) : Bool :=
  match m.code with
  | .set w' _ => w'.unregistered && decide (w'.Owns h i ∧
      (w'.handle h).functions[Bridge.clientName f]? = some f ∧
      (w'.interpreter i).disposed = false ∧ (w'.Traced i (Bridge.clientName f) ∨
        ¬m.world.Traced i (Bridge.clientName f) ∨ (r ∉ (m.world.interpreter i).active ∧
          ∃ t ∈ (m.world.interpreter i).vars.tracesOn r, t.client = Bridge.clientName f ∧ t.Lasting)))
  | .call (.fire _ t r _ _) _ => ((m.world.interpreter i).vars.addTrace
      (VarRef.resolve r.name r.key) t).toBool
  | .call (.deleted ..) _ => false
  | .call (.interpreterStep ..) _ => false
  | _ => true

theorem leadsWith_of_kept {i h f : Nat} {r : VarRef} {root : Call} {handler : Machine.Handler}
    (m m' : Machine root) (hk : kept i h f r m = true) (hstep : m.step handler = .inl m') :
    Machine.LeadsWith (agreeing i h f) handler (true, m) (true, m') := by
  refine Machine.leadsWith_self hstep (fun w' p hcode => ?_) fun d k hcode => ?_
  · rw [kept, hcode] at hk
    dsimp only at hk
    rw [Bool.and_eq_true, decide_eq_true_iff] at hk
    obtain ⟨hplain, howns, hkeeps, hdisposed, htraced⟩ := hk
    refine ⟨howns, fun j name => World.not_carries_of_unregistered hplain j name _ _,
      fun _ _ hnone => absurd (hkeeps.symm.trans hnone) nofun,
      fun _ => ⟨hdisposed, .inr ⟨rfl, fun ht => ?_⟩⟩⟩
    rcases htraced with ht' | hnot | ⟨hquiet, t, hin, hclient, hlasting⟩
    · exact .inl ht'
    · exact absurd ht hnot
    · exact .inr (.inr ⟨r, t, hin, hclient, hlasting, hquiet⟩)
  · rw [kept, hcode] at hk
    refine ⟨fun j step he => ?_, nofun, fun j he => ?_, fun _ r t _ hre => ?_⟩
    · subst he
      cases hk
    · subst he
      cases hk
    · obtain ⟨flags, later, rfl, -⟩ := hre
      dsimp only at hk
      cases hadd : (m.world.interpreter i).vars.addTrace (VarRef.resolve r.name r.key) t with
      | ok vs => exact ⟨vs, rfl⟩
      | error e =>
        rw [hadd] at hk
        cases hk

end FunctionTable

/-- A variable with a trace is unset, and at the reply the trace and its function are
there. -/
theorem Machine.Watched.functions_agree_unset :
    let w := World.staged [.silent "f"] [(.traceUnsets, 0)]
    w.Finds 0 0 0 ∧ w.Agrees 0 0 0 ∧
    ∃ m : Machine (.bridgeStep { op := .unsetVar "m" "a" none .none }),
      m.Watched (agreeing 0 0 0) Scenario.handle true w true ∧
      (m.world.interpreter 0).vars.holds ⟨"a", none⟩ = false ∧
      0 < (m.world.interpreter 0).vars.clientCount (Bridge.clientName 0) ∧
      m.world.Agrees 0 0 0 := by
  intro w
  have hagrees : w.Agrees 0 0 0 := by decide +kernel
  have hfinds := (World.agrees_iff.1 hagrees).1
  have hstart : Machine.Watched (agreeing 0 0 0) Scenario.handle true w true
      (.start Scenario.handle (.bridgeStep { op := .unsetVar "m" "a" none .none }) w) :=
    .start ⟨nofun, nofun, nofun, fun _ _ _ _ ⟨_, hd, _⟩ => nomatch hd⟩
  have hwalk : (Machine.walk Scenario.handle (FunctionTable.kept 0 0 0 ⟨"a", none⟩) 26
      (.start Scenario.handle (.bridgeStep { op := .unsetVar "m" "a" none .none }) w)).map
      (fun m => m.rests 0 && decide ((m.world.interpreter 0).vars.holds ⟨"a", none⟩ = false ∧
        0 < (m.world.interpreter 0).vars.clientCount (Bridge.clientName 0))) = some true := by
    decide +kernel
  obtain ⟨m, hwalk, hend⟩ := Option.map_eq_some_iff.1 hwalk
  have hm := hstart.walk FunctionTable.leadsWith_of_kept hwalk
  rw [Bool.and_eq_true, decide_eq_true_iff] at hend
  obtain ⟨hrests, hunset, hcount⟩ := hend
  obtain ⟨⟨a, ha⟩, hidle⟩ := Machine.exists_of_rests hrests
  exact ⟨hfinds, hagrees, m, hm, hunset, hcount,
    ((hm.functions_agree hfinds fun _ => hagrees).2 a ha).2 hidle rfl⟩

/-- When the last trace of a client goes away with its variable and does not ask for
unsets, the function is kept all the same. -/
theorem FunctionTable.kept_in_vain :
    let w := World.staged [.silent "f"] [(.traceReads, 0)]
    w.Agrees 0 0 0 ∧
    ∃ result w', Program.Runs Scenario.handle
        (Scenario.handle (.bridgeStep { op := .unsetVar "m" "a" none .none })) w result w' ∧
      (w'.interpreter 0).deleted = false ∧
      (w'.interpreter 0).vars.clientCount (Bridge.clientName 0) = 0 ∧
      (w'.handle 0).functions[Bridge.clientName 0]? = some 0 := by
  intro w
  refine ⟨by decide +kernel, ?_⟩
  have houtcome : ((Scenario.outcome 500
      (.bridgeStep { op := .unsetVar "m" "a" none .none }) w).bind Ending.reply?).map
      (fun p => decide ((p.2.interpreter 0).deleted = false ∧
        (p.2.interpreter 0).vars.clientCount (Bridge.clientName 0) = 0 ∧
        (p.2.handle 0).functions[Bridge.clientName 0]? = some 0)) = some true := by
    decide +kernel
  obtain ⟨result, w', hruns, hend⟩ := Machine.exists_runs_of_run houtcome
  exact ⟨result, w', hruns, of_decide_eq_true hend⟩

end CommandBridge
