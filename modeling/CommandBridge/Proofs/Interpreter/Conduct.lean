/-
# Properties of all programs of an interpreter

Scripts and commands are put together from a few operations.  A property of programs
that those operations have and that sequences keep (`Basic`, `Domestic`, `Conduct`) is
therefore one of every script (`Basic.runScript`), every built-in command
(`Domestic.runBuiltin`) and every invocation (`Domestic.invokeWith`).  What an operation
does inside is of no account here, so a property of all programs is shown by looking at
each operation once.  Only some calls rename commands, so renaming is asked for where it
is needed (`Call.IsRenaming`).

Scripts and built-in commands work on the interpreter that runs them.  A property that the
operations on one interpreter have (`BasicOn`, `DomesticOn`) is therefore one of all that
this interpreter runs, and a property of every interpreter follows from that (`Basic.on`,
`Domestic.on`).

Which operations there are is said by `Conduct`: whatever of the world is not an
interpreter, a handle, a bundle or a guard may be changed at will, and of an
interpreter the result and the system encoding.  The depth changes around the procedures
of commands only.
-/

import CommandBridge.Builtin.Run
import CommandBridge.Proofs.Run.Contract
import CommandBridge.Scenario.InterpreterSteps
import CommandBridge.Bridge.Handles
import CommandBridge.Bridge.Bundles
import CommandBridge.Bridge.Traces

namespace CommandBridge

/-- The accesses to a variable that fire traces. -/
inductive Flags.IsAccess : Flags → Prop
  | reads : IsAccess .traceReads
  | writes : IsAccess .traceWrites
  | array : IsAccess .traceArray

namespace Flags

/-- A bit that is neither among the given ones nor passed on to traces is not among
both together. -/
theorem contains_union_scope {f g : Flags} (hf : f.bits &&& g.bits = 0) (hg : 3 &&& g.bits = 0)
    (h₀ : g.bits ≠ 0) (flags : Flags) : (f.union flags.scope).contains g = false := by
  have hnone : (f.bits ||| (flags.bits &&& 3)) &&& g.bits = 0 := by
    refine UInt32.toNat_inj.1 ?_
    have hf' := congrArg UInt32.toNat hf
    have hg' := congrArg UInt32.toNat hg
    simp only [UInt32.toNat_and] at hf' hg'
    simp only [UInt32.toNat_and, UInt32.toNat_or]
    rw [Nat.and_or_distrib_right, Nat.and_assoc, hf', hg', UInt32.toNat_zero, Nat.and_zero,
      Nat.or_zero]
  rw [contains, union, scope, inter]
  dsimp only
  rw [hnone, beq_eq_false_iff_ne]
  exact h₀.symm

theorem contains_iff {f g : Flags} :
    f.contains g = true ↔
      ∀ k, g.bits.toNat.testBit k = true → f.bits.toNat.testBit k = true := by
  rw [contains, beq_iff_eq, ← UInt32.toNat_inj, UInt32.toNat_and]
  constructor
  · intro h k hk
    rw [← h, Nat.testBit_and, Bool.and_eq_true] at hk
    exact hk.1
  · intro h
    refine Nat.eq_of_testBit_eq fun k => ?_
    rw [Nat.testBit_and]
    cases hk : g.bits.toNat.testBit k with
    | false => exact Bool.and_false _
    | true => rw [h k hk]; rfl

theorem contains_union_left {f g : Flags} (h : f.contains g = true) (f' : Flags) :
    (f.union f').contains g = true := by
  rw [contains_iff] at h ⊢
  intro k hk
  rw [union, UInt32.toNat_or, Nat.testBit_or, h k hk, Bool.true_or]

theorem contains_union_right {f g : Flags} (h : f.contains g = true) (f' : Flags) :
    (f'.union f).contains g = true := by
  rw [contains_iff] at h ⊢
  intro k hk
  rw [union, UInt32.toNat_or, Nat.testBit_or, h k hk, Bool.or_true]

/-- An access tells its traces neither that the interpreter is taken down nor that
they are gone. -/
theorem IsAccess.not_contains {op : Flags} (h : op.IsAccess) (flags : Flags) :
    (op.union flags.scope).contains .interpDestroyed = false ∧
      (op.union flags.scope).contains .traceDestroyed = false := by
  cases h <;>
    exact ⟨contains_union_scope (by decide) (by decide) (by decide) flags,
      contains_union_scope (by decide) (by decide) (by decide) flags⟩

end Flags

/-- A change of an interpreter that nothing but its result and its system encoding takes
part in. -/
def Interpreter.Plain (f : Interpreter → Interpreter) : Prop :=
  ∀ s, f s = { s with result := (f s).result, systemEncoding := (f s).systemEncoding }

namespace Interpreter.Plain

variable {f : Interpreter → Interpreter}

/-- A plain change leaves the uses of an interpreter alone. -/
theorem lifetime (hf : Plain f) (s : Interpreter) :
    (f s).preserved = s.preserved ∧ (f s).deleted = s.deleted ∧ (f s).disposed = s.disposed :=
  ⟨by rw [hf s], by rw [hf s], by rw [hf s]⟩

/-- A plain change leaves the commands and the variables of an interpreter alone, and
the traces that are firing. -/
theorem tables (hf : Plain f) (s : Interpreter) :
    (f s).commands = s.commands ∧ (f s).vars = s.vars ∧ (f s).active = s.active :=
  ⟨by rw [hf s], by rw [hf s], by rw [hf s]⟩

end Interpreter.Plain

/-- Calls of whole operations; the others belong to the operations that make them. -/
def Call.IsOperation : Call → Prop
  | .fire .. => False
  | .deleted .. => False
  | _ => True

/-- Calls whose programs may rename a command: what an invocation invokes may be the
command that renames. -/
def Call.IsRenaming : Call → Prop
  | .invoke .. => True
  | .interpreterStep _ (.rename ..) => True
  | _ => False

/-- A built-in command comes to an overflow: an integer that `incr` reads, or the position of
an index that `lindex` is given. -/
inductive Builtin.OverflowsOn : Builtin → List Value → Integer.Overflow → Prop where
  | incr {words : List Value} {v : Value} {o : Integer.Overflow}
      (h : v.getInt = .error (.overflow o)) : OverflowsOn .incr words o
  | lindex {words : List Value} {index : Value} {length : Nat} {o : Integer.Overflow}
      (hindex : index ∈ words) (h : indexPosition index length = .error (.overflow o)) :
      OverflowsOn .lindex words o

/-- The interpreter in which a call installs a trace that is none of the bridge. -/
def Call.tracing? : Call → Option Nat
  | .interpreterStep i (.trace ..) => some i
  | _ => none

/-- The interpreter that a call evaluates in. -/
def Call.evaluated? : Call → Option Nat
  | .eval i _ => some i
  | .evalWords i _ => some i
  | _ => none

namespace Program

/-- A property of programs. -/
abbrev Property : Type 1 := ∀ ⦃α : Type⦄, Program α → Prop

/-- A property that sequences of programs have if their parts have it. -/
structure Sequential (Ok : Property) : Prop where
  pure {α : Type} (a : α) : Ok (Pure.pure a : Program α)
  bind {α β : Type} {p : Program α} {f : α → Program β} (hp : Ok p) (hf : ∀ a, Ok (f a)) :
    Ok (p >>= f)
  get {α : Type} {k : World → Program α} (hk : ∀ w, Ok (k w)) : Ok (.get k)

/-- A property that programs have which read variables and invoke commands of one
interpreter. -/
structure BasicOn (i : Nat) (Ok : Property) : Prop extends Sequential Ok where
  setResult (v : Value) : Ok (Interp.setResult i v)
  fireTraces (r : VarRef) {op : Flags} (hop : op.IsAccess) (flags : Flags) :
    Ok (Interp.fireTraces i r op flags)
  invoke (words : List Value) : Ok (Program.invoke i words)

/-- A property that programs have which work on one interpreter, call no host function
and make, rename and delete no commands and interpreters, so those of the built-in
commands. -/
structure DomesticOn (i : Nat) (Ok : Property) : Prop extends BasicOn i Ok where
  update {α : Type} {f : World → α × World} (hf : ∀ w : World, w.Aside (f w).2) :
    Ok (Program.update f)
  evaluate (source : String) : Ok (Program.eval i source)
  modifyInterpreter {f : Interpreter → Interpreter} (hf : Interpreter.Plain f) :
    Ok (Program.modifyInterpreter i f)
  store (r : VarRef) (v : Value) (flags : Flags) : Ok (Interp.store i r v flags)
  unset (name : String) (key : Option String) (flags : Flags) :
    Ok (Interp.unset i name key flags)

/-- A property that programs have which read variables and invoke commands. -/
structure Basic (Ok : Property) : Prop extends Sequential Ok where
  setResult (i : Nat) (v : Value) : Ok (Interp.setResult i v)
  fireTraces (i : Nat) (r : VarRef) {op : Flags} (hop : op.IsAccess) (flags : Flags) :
    Ok (Interp.fireTraces i r op flags)
  invoke (i : Nat) (words : List Value) : Ok (Program.invoke i words)

/-- A property that programs have which call no host function and make, rename and delete
no commands and interpreters, so those of the built-in commands and of the scripted
procedures. -/
structure Domestic (Ok : Property) : Prop extends Basic Ok where
  overflow {α : Type} (o : Integer.Overflow) : Ok (.overflow o : Program α)
  update {α : Type} {f : World → α × World} (hf : ∀ w : World, w.Aside (f w).2) :
    Ok (Program.update f)
  evaluate (i : Nat) (source : String) : Ok (Program.eval i source)
  interpreterStep (i : Nat) (step : InterpreterStep) :
    Ok (Program.request (.interpreterStep i step))
  modifyInterpreter (i : Nat) {f : Interpreter → Interpreter} (hf : Interpreter.Plain f) :
    Ok (Program.modifyInterpreter i f)
  store (i : Nat) (r : VarRef) (v : Value) (flags : Flags) : Ok (Interp.store i r v flags)
  unset (i : Nat) (name : String) (key : Option String) (flags : Flags) :
    Ok (Interp.unset i name key flags)

/-- A property that all programs have but those of the delete procedures, of the
traces and of the evaluations. -/
structure Conduct (Ok : Property) : Prop extends Domestic Ok where
  request {c : Call} (hc : c.IsOperation) : Ok (Program.request c)
  evaluate := fun _ _ => request trivial
  interpreterStep := fun _ _ => request trivial
  createCommand (i : Nat) (name : String) {c : Command}
    (hc : ∀ handle key, c.procedure ≠ .callRegistered handle key) :
    Ok (Interp.createCommand i name c)
  deleteCommand (i : Nat) (name : String) : Ok (Interp.deleteCommand i name)
  delete (i : Nat) : Ok (Interp.delete i)
  buildBundle (i : Nat) (vs : List HostValue) : Ok (Bridge.buildBundle i vs)
  teardown (id : Nat) : Ok (Bridge.teardown id)
  addInterpreter (maxNesting : Nat) : Ok (Bridge.addInterpreter maxNesting)
  addHandle (i : Nat) (s : Settings) : Ok (Bridge.addHandle i s)
  destroy (handle : Nat) : Ok (Bridge.destroy handle)
  register (handle : Nat) (name : String) (function : Nat) :
    Ok (Bridge.register handle name function)
  traceVar (handle : Nat) (name : String) (key : Option String) (flags : Flags) (function : Nat) :
    Ok (Bridge.traceVar handle name key flags function)
  untraceVar (handle : Nat) (name : String) (key : Option String) (flags : Flags)
    (function : Nat) : Ok (Bridge.untraceVar handle name key flags function)

variable {Ok : Property}

theorem Basic.on (h : Basic Ok) (i : Nat) : BasicOn i Ok where
  toSequential := h.toSequential
  setResult := h.setResult i
  fireTraces r {_} hop flags := h.fireTraces i r hop flags
  invoke := h.invoke i

theorem Domestic.on (h : Domestic Ok) (i : Nat) : DomesticOn i Ok where
  toBasicOn := h.toBasic.on i
  update := h.update
  evaluate := h.evaluate i
  modifyInterpreter := h.modifyInterpreter i
  store := h.store i
  unset := h.unset i

/-! ### Sequences -/

namespace Sequential

variable {α : Type}

theorem reading (h : Sequential Ok) (f : World → α) : Ok (Program.reading f) :=
  h.get fun w => h.pure (f w)

theorem world (h : Sequential Ok) : Ok Program.world :=
  h.get fun w => h.pure w

theorem interpreter (h : Sequential Ok) (i : Nat) : Ok (Program.interpreter i) :=
  h.reading _

/-- The message of a failed access is kept if setting the result is. -/
theorem reportAccess (h : Sequential Ok) {i : Nat}
    (hset : ∀ value, Ok (Interp.setResult i value)) (flags : Flags) (verb : String) (r : VarRef)
    (reason : String) : Ok (Interp.reportAccess i flags verb r reason) := by
  rw [Interp.reportAccess]
  split
  · exact hset _
  · exact h.pure ()

theorem each (h : Sequential Ok) {f : α → Program Unit} (hf : ∀ a, Ok (f a)) (as : List α) :
    Ok (Program.each f as) := by
  induction as with
  | nil => exact h.pure ()
  | cons a r ih => exact h.bind (hf a) fun _ => ih

theorem eachWithRest (h : Sequential Ok) {f : α → List α → Program Unit}
    (hf : ∀ a r, Ok (f a r)) (as : List α) : Ok (Program.eachWithRest f as) := by
  induction as with
  | nil => exact h.pure ()
  | cons a r ih => exact h.bind (hf a r) fun _ => ih

theorem withLive (h : Sequential Ok) (handle : Nat) {k : Nat → Program (Except BridgeError α)}
    (hk : ∀ i, Ok (k i)) : Ok (Bridge.withLive handle k) := by
  refine h.bind h.world fun w => ?_
  split
  · exact hk _
  · exact h.pure _

theorem fireEach (h : Sequential Ok) {i : Nat} {r : VarRef} {flags : Flags}
    (hfire : ∀ t later, Ok (Program.request (.fire i t r flags later))) (ts : List Trace) :
    Ok (Interp.fireEach i r flags ts) := by
  induction ts with
  | nil => exact h.pure _
  | cons t ts ih =>
    refine h.bind (hfire t _) fun veto => ?_
    split
    · exact h.pure _
    · exact ih

/-- The traces on an access are fired one by one while they are marked as firing. -/
theorem fireTraces (h : Sequential Ok) {i : Nat} {r : VarRef} {op flags : Flags}
    (henter : Ok (Interp.enterTraces i r)) (hleave : Ok (Interp.leaveTraces i))
    (hfire : ∀ t later, Ok (Program.request (.fire i t r (op.union flags.scope) later))) :
    Ok (Interp.fireTraces i r op flags) := by
  refine h.bind (h.interpreter i) fun s => ?_
  dsimp only
  split
  · exact h.pure _
  · exact h.bind henter fun _ => h.bind (h.fireEach hfire _) fun _ =>
      h.bind hleave fun _ => h.pure _

/-- The unset traces are fired group by group. -/
theorem fireUnset (h : Sequential Ok) {i : Nat} {name : String} {extra : Flags}
    (henter : ∀ r, Ok (Interp.enterTraces i r)) (hleave : Ok (Interp.leaveTraces i))
    (hfire : ∀ (t : Trace) (g : UnsetGroup) later, Ok (Program.request
      (.fire i t ⟨name, g.key⟩ (Interp.groupFlags extra g) later))) (groups : List UnsetGroup) :
    Ok (Interp.fireUnset i name extra groups) := by
  refine h.eachWithRest (fun g _ => h.bind (h.interpreter i) fun s => ?_) groups
  split
  · exact h.pure _
  · refine h.bind (henter _) fun _ => h.bind ?_ fun _ => hleave
    exact h.eachWithRest (fun t _ => h.bind (hfire t g _) fun _ => h.pure _) _

section Commands

variable {i : Nat} {name : String}

theorem createCommand (h : Sequential Ok) {c : Command} (htake : Ok (Interp.takeCommand i name))
    (hdelete : ∀ action, Ok (Interp.runDelete i action)) (hput : Ok (Interp.putCommand i name c)) :
    Ok (Interp.createCommand i name c) := by
  refine h.bind (h.interpreter i) fun s => ?_
  split
  · exact h.pure _
  · exact h.bind htake fun _ => h.bind (hdelete _) fun _ => h.bind hput fun _ => h.pure _

theorem deleteCommand (h : Sequential Ok) (htake : Ok (Interp.takeCommand i name))
    (hdelete : ∀ action, Ok (Interp.runDelete i action)) : Ok (Interp.deleteCommand i name) := by
  refine h.bind htake fun command => ?_
  split
  · exact h.pure _
  · exact h.bind (hdelete _) fun _ => h.pure _

theorem renameCommand (h : Sequential Ok) {new : String}
    (hfail : ∀ message, Ok (Interp.fail i message)) (htake : Ok (Interp.takeCommand i name))
    (hdelete : Ok (Interp.deleteCommand i name)) (hput : ∀ c, Ok (Interp.putCommand i new c)) :
    Ok (Interp.renameCommand i name new) := by
  refine h.bind (h.interpreter i) fun s => ?_
  split
  · exact hfail _
  · split
    · exact h.bind hdelete fun _ => h.pure _
    · split
      · exact hfail _
      · refine h.bind htake fun command => ?_
        split
        · exact h.pure _
        · exact h.bind (hput _) fun _ => h.pure _

theorem register (h : Sequential Ok) {handle function : Nat}
    (hcreate : ∀ i, Ok (Interp.createCommand i name (Bridge.registeredCommand handle name)))
    (hkeep : Ok (Bridge.keepFunction handle name function)) :
    Ok (Bridge.register handle name function) := by
  refine h.withLive handle fun i => h.bind (hcreate i) fun created => ?_
  split
  · exact h.bind hkeep fun _ => h.pure _
  · exact h.pure _

/-- Installing a trace in an interpreter keeps a function. -/
theorem installTrace (h : Sequential Ok) {handle function : Nat} {key : Option String}
    {flags : Flags}
    (hadd : Ok (Interp.addTrace i name key
      { flags := Bridge.traceFlags flags, client := Bridge.clientName function,
        action := .callback handle }))
    (hkeep : Ok (Bridge.keepFunction handle (Bridge.clientName function) function)) :
    Ok (do
      let client := Bridge.clientName function
      let flags := Bridge.traceFlags flags
      let status ←
        if (← Interp.tracesOn i name key).any (Bridge.isInstalled client flags) then Pure.pure .ok
        else Interp.addTrace i name key { flags, client, action := .callback handle }
      match status with
      | .error => Bridge.resultError i
      | _ =>
        Bridge.keepFunction handle client function
        return .ok () : Program (Except BridgeError Unit)) := by
  refine h.bind (h.reading _) fun installed => ?_
  have hlast : ∀ status : Status, Ok (match status with
      | .error => Bridge.resultError i
      | _ => do
        Bridge.keepFunction handle (Bridge.clientName function) function
        return .ok ()) := by
    intro status
    split
    · exact h.bind (h.reading _) fun _ => h.pure _
    · exact h.bind hkeep fun _ => h.pure _
  dsimp only
  split
  · exact h.bind (h.pure _) hlast
  · exact h.bind hadd hlast

theorem traceVar (h : Sequential Ok) {handle function : Nat} {key : Option String} {flags : Flags}
    (hadd : ∀ i, Ok (Interp.addTrace i name key
      { flags := Bridge.traceFlags flags, client := Bridge.clientName function,
        action := .callback handle }))
    (hkeep : Ok (Bridge.keepFunction handle (Bridge.clientName function) function)) :
    Ok (Bridge.traceVar handle name key flags function) :=
  h.withLive handle fun i => h.installTrace (hadd i) hkeep

/-- Removing a trace may drop a function. -/
theorem untraceVar (h : Sequential Ok) {handle function : Nat} {key : Option String}
    {flags : Flags} (hremove : ∀ i flags client, Ok (Interp.removeTrace i name key flags client))
    (hforget : Ok (Bridge.forgetFunction handle (Bridge.clientName function))) :
    Ok (Bridge.untraceVar handle name key flags function) := by
  refine h.withLive handle fun i => h.bind (hremove i _ _) fun _ =>
    h.bind (h.interpreter i) fun s => ?_
  split
  · exact h.bind hforget fun _ => h.pure _
  · exact h.pure _

theorem delete (h : Sequential Ok)
    (hmark : Ok (Program.modifyInterpreter i fun s => { s with deleted := true }))
    (hdispose : Ok (Interp.dispose i)) : Ok (Interp.delete i) := by
  refine h.bind (h.interpreter i) fun s => ?_
  split
  · exact h.pure ()
  · refine h.bind hmark fun _ => h.bind (h.interpreter i) fun s => ?_
    split
    · exact hdispose
    · exact h.pure ()

theorem destroy (h : Sequential Ok) {handle : Nat}
    (hmark : Ok (Program.modify fun w => w.withHandle handle fun h => { h with destroyed := true }))
    (hdelete : ∀ i, Ok (Interp.delete i)) : Ok (Bridge.destroy handle) := by
  refine h.bind h.world fun w => ?_
  split
  · exact h.pure ()
  · exact h.bind hmark fun _ => h.bind h.world fun w => hdelete _

end Commands

end Sequential

/-! ### Scripts -/

namespace BasicOn

variable {i : Nat} {α : Type}

theorem result (h : BasicOn i Ok) : Ok (Interp.result i) :=
  h.reading _

theorem fail (h : BasicOn i Ok) (message : String) : Ok (Interp.fail i message) :=
  h.bind (h.setResult _) fun _ => h.pure _

theorem reportAccess (h : BasicOn i Ok) (flags : Flags) (verb : String) (r : VarRef)
    (reason : String) : Ok (Interp.reportAccess i flags verb r reason) :=
  h.toSequential.reportAccess h.setResult flags verb r reason

theorem readRef (h : BasicOn i Ok) (r : VarRef) (flags : Flags) :
    Ok (Interp.readRef i r flags) := by
  refine h.bind (h.fireTraces r .reads flags) fun veto => ?_
  split
  · exact h.bind (h.reportAccess ..) fun _ => h.pure _
  · refine h.bind (h.interpreter i) fun s => ?_
    split
    · exact h.pure _
    · exact h.bind (h.reportAccess ..) fun _ => h.pure _

theorem read (h : BasicOn i Ok) (name : String) (key : Option String) (flags : Flags) :
    Ok (Interp.read i name key flags) :=
  h.readRef _ flags

theorem runVar (h : BasicOn i Ok) (name : String) (key : Option String) :
    Ok (Interp.runVar i name key) := by
  refine h.bind (h.read name key _) fun value => ?_
  split <;> exact h.pure _

theorem broken (h : BasicOn i Ok) (e : ScriptError) :
    Ok (Interp.broken i e : Program (Except Status α)) :=
  h.bind (h.fail _) fun _ => h.pure _

mutual

theorem runScript (h : BasicOn i Ok) (s : Script) : Ok (Interp.runScript i s) := by
  cases s with
  | done => rw [Interp.runScript]; exact h.pure _
  | fail e => rw [Interp.runScript]; exact h.fail _
  | command words rest =>
    rw [Interp.runScript]
    have hnext : ∀ status : Status, Ok (match status with
        | .ok => Interp.runScript i rest
        | status => Pure.pure status) := by
      intro status
      split
      · exact h.runScript rest
      · exact h.pure _
    refine h.bind (h.runWords words) fun r => ?_
    split
    · exact h.pure _
    · dsimp only
      split
      · exact h.bind (h.pure _) hnext
      · exact h.bind (h.invoke _) hnext

theorem runWords (h : BasicOn i Ok) (ws : Words) : Ok (Interp.runWords i ws) := by
  cases ws with
  | done => rw [Interp.runWords]; exact h.pure _
  | fail e => rw [Interp.runWords]; exact h.broken e
  | literal s rest =>
    rw [Interp.runWords]
    refine h.bind (h.runWords rest) fun r => ?_
    split <;> exact h.pure _
  | word pieces rest =>
    rw [Interp.runWords]
    refine h.bind (h.runPieces pieces .blank) fun r => ?_
    split
    · exact h.pure _
    · refine h.bind (h.runWords rest) fun r => ?_
      split <;> exact h.pure _

theorem runPieces (h : BasicOn i Ok) (ps : Pieces) (draft : Draft) :
    Ok (Interp.runPieces i ps draft) := by
  cases ps with
  | done => rw [Interp.runPieces]; exact h.pure _
  | cons piece rest =>
    rw [Interp.runPieces]
    refine h.bind (h.runPiece piece draft) fun r => ?_
    split
    · exact h.pure _
    · exact h.runPieces rest _

theorem runPiece (h : BasicOn i Ok) (p : Piece) (draft : Draft) :
    Ok (Interp.runPiece i p draft) := by
  cases p with
  | fail e => rw [Interp.runPiece]; exact h.broken e
  | char c => rw [Interp.runPiece]; exact h.pure _
  | var name =>
    rw [Interp.runPiece]
    exact h.bind (h.runVar name none) fun _ => h.pure _
  | elem name key =>
    rw [Interp.runPiece]
    refine h.bind (h.runPieces key .blank) fun r => ?_
    split
    · exact h.pure _
    · exact h.bind (h.runVar name _) fun _ => h.pure _
  | script s =>
    rw [Interp.runPiece]
    refine h.bind (h.setResult _) fun _ => h.bind (h.runScript s) fun status => ?_
    split
    · exact h.bind (h.result) fun _ => h.pure _
    · exact h.pure _

end

end BasicOn

/-! ### Operations on variables and encodings -/

namespace DomesticOn

variable {i : Nat} {α : Type}

theorem modify (h : DomesticOn i Ok) {f : World → World} (hf : ∀ w : World, w.Aside (f w)) :
    Ok (Program.modify f) :=
  h.update (f := fun w => ((), f w)) hf

theorem log (h : DomesticOn i Ok) (e : Event) : Ok (Program.log e) :=
  h.modify fun _ => ⟨rfl, rfl, rfl, rfl⟩

theorem writeRef (h : DomesticOn i Ok) (r : VarRef) (v : Value) (flags : Flags) :
    Ok (Interp.writeRef i r v flags) := by
  refine h.bind (h.store r v flags) fun stored => ?_
  split
  · exact h.bind (h.reportAccess ..) fun _ => h.pure _
  · refine h.bind (h.fireTraces r .writes flags) fun veto => ?_
    split
    · exact h.bind (h.reportAccess ..) fun _ => h.pure _
    · refine h.bind (h.interpreter i) fun s => ?_
      split <;> exact h.pure _

theorem write (h : DomesticOn i Ok) (name : String) (key : Option String) (v : Value)
    (flags : Flags) : Ok (Interp.write i name key v flags) := by
  unfold Interp.write
  dsimp only
  split
  case' isTrue => refine h.bind (h.fireTraces _ .reads flags) fun veto => ?_
  case' isFalse => refine h.bind (h.pure _) fun veto => ?_
  all_goals
    split
    · exact h.bind (h.reportAccess ..) fun _ => h.pure _
    · exact h.writeRef _ v flags

theorem findEncoding (h : DomesticOn i Ok) (name : Option String) :
    Ok (Interp.findEncoding i name) := by
  unfold Interp.findEncoding
  split
  · exact h.bind (h.interpreter i) fun _ => h.pure _
  · split
    · exact h.pure _
    · exact h.bind (h.setResult _) fun _ => h.pure _

theorem setSystemEncoding (h : DomesticOn i Ok) (name : String) :
    Ok (Interp.setSystemEncoding i name) := by
  refine h.bind (h.findEncoding _) fun e => ?_
  split
  · exact h.pure _
  · exact h.bind (h.modifyInterpreter fun _ => rfl) fun _ => h.pure _

theorem start (h : DomesticOn i Ok) (script : Option String) : Ok (Interp.start i script) := by
  unfold Interp.start
  split
  · exact h.evaluate _
  · exact h.pure _

/-! ### Built-in commands -/

theorem withRead (h : DomesticOn i Ok) {a : Except Value.AccessError α}
    {k : α → Program Status} (hk : ∀ a, Ok (k a))
    (hoverflow : ∀ o, a = .error (.overflow o) → Ok (.overflow o : Program Status)) :
    Ok (Builtin.withRead i a k) := by
  unfold Builtin.withRead
  split
  · exact hk _
  · exact hoverflow _ rfl
  · exact h.fail _

theorem withList (h : DomesticOn i Ok) {listed : Value} {k : List Value → Program Status}
    (hk : ∀ vs, Ok (k vs)) : Ok (Builtin.withRead i listed.getList k) :=
  h.withRead hk fun _ ho => absurd ho listed.getList_ne_overflow

theorem answer (h : DomesticOn i Ok) (v : Value) : Ok (Builtin.answer i v) :=
  h.bind (h.setResult v) fun _ => h.pure _

theorem answerAccess (h : DomesticOn i Ok) (v : Option Value) :
    Ok (Builtin.answerAccess i v) := by
  unfold Builtin.answerAccess
  split
  · exact h.answer _
  · exact h.pure _

theorem readAnswered (h : DomesticOn i Ok) (name : String) :
    Ok (do Builtin.answerAccess i (← Interp.read i name none .leaveErrorMessage)) :=
  h.bind (h.read ..) fun _ => h.answerAccess ..

theorem writeAnswered (h : DomesticOn i Ok) (name : String) (v : Value) :
    Ok (do Builtin.answerAccess i (← Interp.write i name none v .leaveErrorMessage)) :=
  h.bind (h.write ..) fun _ => h.answerAccess ..

theorem runSet (h : DomesticOn i Ok) (words : List Value) : Ok (Builtin.runSet i words) := by
  unfold Builtin.runSet
  split
  · exact h.readAnswered _
  · exact h.writeAnswered _ _
  · exact h.fail _

theorem runUnset (h : DomesticOn i Ok) (words : List Value) :
    Ok (Builtin.runUnset i words) := by
  have heach : ∀ complain names, Ok (Builtin.unsetEach i complain names) := by
    intro complain names
    induction names with
    | nil => exact h.bind (h.setResult _) fun _ => h.pure _
    | cons name rest ih =>
      refine h.bind (h.unset ..) fun status => ?_
      split
      · exact h.pure _
      · exact ih
  exact heach _ _

theorem increment (h : DomesticOn i Ok) (name : String) (step : Int64)
    (hoverflow : ∀ (v : Value) (o : Integer.Overflow), v.getInt = .error (.overflow o) →
      Ok (.overflow o : Program Status)) : Ok (Builtin.increment i name step) := by
  refine h.bind (h.reading _) fun exists_ => ?_
  split
  · refine h.bind (h.read ..) fun value => ?_
    split
    · exact h.pure _
    · exact h.withRead (fun _ => h.writeAnswered _ _) (hoverflow _)
  · exact h.writeAnswered _ _

theorem runIncr (h : DomesticOn i Ok) (words : List Value)
    (hoverflow : ∀ (v : Value) (o : Integer.Overflow), v.getInt = .error (.overflow o) →
      Ok (.overflow o : Program Status)) : Ok (Builtin.runIncr i words) := by
  unfold Builtin.runIncr
  split
  · exact h.increment _ _ hoverflow
  · exact h.withRead (fun _ => h.increment _ _ hoverflow) (hoverflow _)
  · exact h.fail _

theorem appendEach (h : DomesticOn i Ok) (name : String) (flags : Flags)
    (last : Option Value) (vs : List Value) : Ok (Builtin.appendEach i name flags last vs) := by
  induction vs generalizing last with
  | nil => exact h.answerAccess last
  | cons v rest ih =>
    refine h.bind (h.write ..) fun new => ?_
    split
    · exact h.pure _
    · exact ih _

theorem runAppend (h : DomesticOn i Ok) (words : List Value) :
    Ok (Builtin.runAppend i words) := by
  unfold Builtin.runAppend
  split
  · exact h.readAnswered _
  · exact h.appendEach ..
  · exact h.fail _

theorem runLappend (h : DomesticOn i Ok) (words : List Value) :
    Ok (Builtin.runLappend i words) := by
  unfold Builtin.runLappend
  split
  · refine h.bind (h.reading _) fun exists_ => ?_
    split
    · exact h.readAnswered _
    · exact h.writeAnswered _ _
  · exact h.appendEach ..
  · exact h.fail _

theorem arrayPairs (h : DomesticOn i Ok) (name : String) (keys : List String) :
    Ok (Builtin.arrayPairs i name keys) := by
  induction keys with
  | nil => exact h.pure _
  | cons key rest ih =>
    refine h.bind (h.read ..) fun value => h.bind ih fun pairs => ?_
    split <;> exact h.pure _

theorem arrayWrite (h : DomesticOn i Ok) (name : String) (vs : List Value) :
    Ok (Builtin.arrayWrite i name vs) := by
  induction vs using Builtin.arrayWrite.induct with
  | case1 key value rest ih =>
    rw [Builtin.arrayWrite]
    refine h.bind (h.write ..) fun new => ?_
    split
    · exact h.pure _
    · exact ih
  | case2 vs hvs =>
    rw [Builtin.arrayWrite.eq_2 _ _ _ hvs]
    exact h.bind (h.setResult _) fun _ => h.pure _

theorem arrayCommand (h : DomesticOn i Ok) (option name : String) (args : List Value) :
    Ok (Builtin.arrayCommand i option name args) := by
  refine h.bind (h.interpreter i) fun s => ?_
  dsimp only
  split
  · exact h.answer _
  · exact h.answer _
  · exact h.answer _
  · exact h.answer _
  · exact h.bind (h.arrayPairs ..) fun _ => h.answer _
  · refine h.withList fun pairs => ?_
    split
    · exact h.fail _
    · exact h.arrayWrite ..
  · have hend : Ok (do Interp.resetResult i; return Status.ok) :=
      h.bind (h.setResult _) fun _ => h.pure _
    split
    · exact h.bind (h.unset ..) fun _ => hend
    · exact hend
  · split <;> exact h.fail _

theorem runArray (h : DomesticOn i Ok) (words : List Value) :
    Ok (Builtin.runArray i words) := by
  unfold Builtin.runArray
  split
  · refine h.bind (h.fireTraces _ .array _) fun veto => ?_
    split
    · exact h.fail _
    · exact h.arrayCommand ..
  · exact h.fail _

theorem runCatch (h : DomesticOn i Ok) (words : List Value) :
    Ok (Builtin.runCatch i words) := by
  unfold Builtin.runCatch
  dsimp only
  split
  · exact h.bind (h.evaluate ..) fun _ => h.answer _
  · refine h.bind (h.evaluate ..) fun status => h.bind (h.result) fun v =>
      h.bind (h.write ..) fun saved => ?_
    split
    · exact h.fail _
    · exact h.answer _
  · exact h.fail _

theorem runError (h : DomesticOn i Ok) (words : List Value) :
    Ok (Builtin.runError i words) := by
  have hnote : ∀ name value, Ok (Builtin.noteGlobal i name value) := by
    intro name value
    unfold Builtin.noteGlobal
    split
    · exact h.pure _
    · exact h.bind (h.write ..) fun _ => h.pure _
  have hfinish : ∀ message trail code, Ok (do
      Builtin.noteGlobal i "errorInfo" trail
      Builtin.noteGlobal i "errorCode" code
      Interp.setResult i message
      return Status.error) := fun message trail code =>
    h.bind (hnote _ _) fun _ => h.bind (hnote _ _) fun _ => h.bind (h.setResult _) fun _ =>
      h.pure _
  unfold Builtin.runError
  dsimp only
  split
  · exact hfinish _ _ _
  · exact hfinish _ _ _
  · exact hfinish _ _ _
  · exact h.fail _

theorem runEval (h : DomesticOn i Ok) (words : List Value) :
    Ok (Builtin.runEval i words) := by
  unfold Builtin.runEval
  split
  · exact h.evaluate ..
  · exact h.evaluate ..
  · exact h.fail _

theorem runInfo (h : DomesticOn i Ok) (words : List Value) :
    Ok (Builtin.runInfo i words) := by
  unfold Builtin.runInfo
  split
  · split
    · exact h.bind (h.interpreter i) fun _ => h.answer _
    · exact h.fail _
    · exact h.bind (h.interpreter i) fun _ => h.answer _
    · exact h.bind (h.interpreter i) fun _ => h.answer _
    · exact h.fail _
  · exact h.fail _

theorem runRename (h : DomesticOn i Ok)
    (hrename : ∀ old new, Ok (Interp.renameCommand i old new)) (words : List Value) :
    Ok (Builtin.runRename i words) := by
  unfold Builtin.runRename
  split
  · exact hrename ..
  · exact h.fail _

theorem runReturn (h : DomesticOn i Ok) (words : List Value) :
    Ok (Builtin.runReturn i words) := by
  unfold Builtin.runReturn
  split
  · exact h.fail _
  · exact h.bind (h.setResult _) fun _ => h.pure _
  · exact h.bind (h.setResult _) fun _ => h.pure _
  · exact h.fail _

theorem runLlength (h : DomesticOn i Ok) (words : List Value) :
    Ok (Builtin.runLlength i words) := by
  unfold Builtin.runLlength
  split
  · exact h.withList fun _ => h.answer _
  · exact h.fail _

theorem runLindex (h : DomesticOn i Ok) (words : List Value)
    (hoverflow : ∀ (index : Value) (length : Nat) (o : Integer.Overflow), index ∈ words →
      Builtin.indexPosition index length = .error (.overflow o) →
        Ok (.overflow o : Program Status)) : Ok (Builtin.runLindex i words) := by
  unfold Builtin.runLindex
  split
  · rename_i command listed indices
    split
    · exact h.answer _
    · rename_i hpicked
      obtain ⟨index, hindex, length, hposition⟩ := Builtin.exists_of_pickEach_overflow hpicked
      exact hoverflow index length _ (List.mem_cons_of_mem _ (List.mem_cons_of_mem _ hindex))
        hposition
    · exact h.fail _
  · exact h.fail _

theorem runJoin (h : DomesticOn i Ok) (words : List Value) :
    Ok (Builtin.runJoin i words) := by
  unfold Builtin.runJoin
  split
  · exact h.withList fun _ => h.answer _
  · exact h.withList fun _ => h.answer _
  · exact h.fail _

theorem runString (h : DomesticOn i Ok) (words : List Value) :
    Ok (Builtin.runString i words) := by
  unfold Builtin.runString
  split
  · split
    · exact h.answer _
    · exact h.fail _
  · exact h.fail _

theorem writeChannel (h : DomesticOn i Ok) (channel text : String) :
    Ok (Builtin.writeChannel i channel text) := by
  unfold Builtin.writeChannel
  split
  · exact h.bind (h.modify fun _ => ⟨rfl, rfl, rfl, rfl⟩) fun _ => h.pure _
  · exact h.bind (h.modify fun _ => ⟨rfl, rfl, rfl, rfl⟩) fun _ => h.pure _
  · exact h.fail _

theorem runPuts (h : DomesticOn i Ok) (words : List Value) :
    Ok (Builtin.runPuts i words) := by
  unfold Builtin.runPuts
  split
  split
  · exact h.writeChannel _ _
  · exact h.writeChannel _ _
  · exact h.fail _

theorem runConversion (h : DomesticOn i Ok) (words args : List Value) (toText : Bool) :
    Ok (Builtin.runConversion i words args toText) := by
  unfold Builtin.runConversion
  dsimp only
  split
  case h_3 => exact h.fail _
  all_goals
    refine h.bind (h.findEncoding _) fun e => ?_
    split
    · exact h.pure _
    · exact h.answer _

theorem runEncoding (h : DomesticOn i Ok) (words : List Value) :
    Ok (Builtin.runEncoding i words) := by
  unfold Builtin.runEncoding
  split
  · split
    · exact h.bind (h.setResult _) fun _ => h.pure _
    · exact h.fail _
    · exact h.bind (h.interpreter i) fun _ => h.answer _
    · exact h.setSystemEncoding _
    · exact h.fail _
    · exact h.runConversion ..
    · exact h.runConversion ..
    · exact h.fail _
  · exact h.fail _

/-- **Every built-in command has a property that the operations have**, renaming
included, and the overflows that the command may come to. -/
theorem runBuiltin (h : DomesticOn i Ok) (b : Builtin)
    (hrename : ∀ old new, Ok (Interp.renameCommand i old new)) (words : List Value)
    (hoverflow : ∀ o, b.OverflowsOn words o → Ok (.overflow o : Program Status)) :
    Ok (b.run i words) := by
  cases b with
  | append => exact h.runAppend words
  | array => exact h.runArray words
  | «catch» => exact h.runCatch words
  | concat => exact h.answer _
  | encoding => exact h.runEncoding words
  | error => exact h.runError words
  | eval => exact h.runEval words
  | incr => exact h.runIncr words fun _ o hv => hoverflow o (.incr hv)
  | info => exact h.runInfo words
  | join => exact h.runJoin words
  | lappend => exact h.runLappend words
  | lindex => exact h.runLindex words fun _ _ o hindex hp => hoverflow o (.lindex hindex hp)
  | list => exact h.answer _
  | llength => exact h.runLlength words
  | puts => exact h.runPuts words
  | rename => exact h.runRename hrename words
  | «return» => exact h.runReturn words
  | set => exact h.runSet words
  | string => exact h.runString words
  | unset => exact h.runUnset words

/-- An invocation has the property if the procedures of commands have it and counting
the depth has it. -/
theorem invokeWith (h : DomesticOn i Ok)
    {perform : Nat → Procedure → List Value → Program Status}
    (hp : ∀ p words, Ok (perform i p words)) (henter : Ok (Interp.enterCommand i))
    (hleave : Ok (Interp.leaveCommand i)) (words : List Value) :
    Ok (Interp.invokeWith perform i words) := by
  unfold Interp.invokeWith
  split
  · exact h.pure _
  · refine h.bind (h.interpreter i) fun s => ?_
    split
    · exact h.fail _
    · split
      · exact h.fail _
      · exact h.bind (h.setResult _) fun _ => h.bind henter fun _ =>
          h.bind (hp ..) fun status => h.bind hleave fun _ => h.pure _

end DomesticOn

/-! ### Every interpreter -/

namespace Basic

theorem fail (h : Basic Ok) (i : Nat) (message : String) : Ok (Interp.fail i message) :=
  (h.on i).fail message

theorem result (h : Basic Ok) (i : Nat) : Ok (Interp.result i) :=
  (h.on i).result

theorem read (h : Basic Ok) (i : Nat) (name : String) (key : Option String) (flags : Flags) :
    Ok (Interp.read i name key flags) :=
  (h.on i).read name key flags

theorem runScript (h : Basic Ok) (i : Nat) (s : Script) : Ok (Interp.runScript i s) :=
  (h.on i).runScript s

end Basic

namespace Domestic

theorem modify (h : Domestic Ok) {f : World → World} (hf : ∀ w : World, w.Aside (f w)) :
    Ok (Program.modify f) :=
  (h.on 0).modify hf

theorem log (h : Domestic Ok) (e : Event) : Ok (Program.log e) :=
  (h.on 0).log e

theorem write (h : Domestic Ok) (i : Nat) (name : String) (key : Option String) (v : Value)
    (flags : Flags) : Ok (Interp.write i name key v flags) :=
  (h.on i).write name key v flags

theorem findEncoding (h : Domestic Ok) (i : Nat) (name : Option String) :
    Ok (Interp.findEncoding i name) :=
  (h.on i).findEncoding name

theorem setSystemEncoding (h : Domestic Ok) (i : Nat) (name : String) :
    Ok (Interp.setSystemEncoding i name) :=
  (h.on i).setSystemEncoding name

theorem start (h : Domestic Ok) (i : Nat) (script : Option String) : Ok (Interp.start i script) :=
  (h.on i).start script

theorem runBuiltin (h : Domestic Ok) (b : Builtin) (i : Nat)
    (hrename : ∀ old new, Ok (Interp.renameCommand i old new)) (words : List Value) :
    Ok (b.run i words) :=
  (h.on i).runBuiltin b hrename words fun o _ => h.overflow o

theorem invokeWith (h : Domestic Ok) {perform : Nat → Procedure → List Value → Program Status}
    (hp : ∀ i p words, Ok (perform i p words)) (i : Nat) (henter : Ok (Interp.enterCommand i))
    (hleave : Ok (Interp.leaveCommand i)) (words : List Value) :
    Ok (Interp.invokeWith perform i words) :=
  (h.on i).invokeWith (hp i) henter hleave words

end Domestic

end Program
end CommandBridge
