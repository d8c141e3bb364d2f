/-
# Properties of all programs of a bridge

What `Conduct` says of the operations holds of everything that the bridge and the
scenarios make of them: of the commands that call host functions, of every request to
the library (`Conduct.perform`), of every call of a host value
(`Conduct.callValue`) and of every step of a scenario (`Conduct.runBridgeStep`,
`Conduct.runStep`).
-/

import CommandBridge.Proofs.Interpreter.Conduct
import CommandBridge.Scenario.Dispatch

namespace CommandBridge

namespace World

theorem Aside.refl (w : World) : w.Aside w :=
  ⟨rfl, rfl, rfl, rfl⟩

theorem Aside.trans {w₁ w₂ w₃ : World} (h : w₁.Aside w₂) (h' : w₂.Aside w₃) : w₁.Aside w₃ :=
  ⟨h'.interpreters.trans h.interpreters, h'.handles.trans h.handles,
    h'.bundles.trans h.bundles, h'.guards.trans h.guards⟩

theorem aside_setLabel? (w : World) (label : Option String) (v : HostValue) :
    w.Aside (w.setLabel? label v) := by
  cases label <;> exact ⟨rfl, rfl, rfl, rfl⟩

end World

namespace Literal

mutual

/-- Making a value touches the heap and the labels only. -/
theorem aside_make (w : World) (l : Literal) : w.Aside (l.make w).2 := by
  cases l with
  | table items pairs label =>
    rw [make]
    have hnew : w.Aside (w.addTable .empty).2 := ⟨rfl, rfl, rfl, rfl⟩
    exact hnew.trans ((World.aside_setLabel? _ _ _).trans
      ((aside_append _ _ items).trans (aside_fill _ _ pairs)))
  | function label => rw [make]; exact ⟨rfl, rfl, rfl, rfl⟩
  | thing => rw [make]; exact ⟨rfl, rfl, rfl, rfl⟩
  | nil | bool | int | number | string | ref => rw [make]; exact .refl w

theorem aside_append (id : Nat) (w : World) (ls : List Literal) : w.Aside (append id w ls) := by
  cases ls with
  | nil => rw [append]; exact .refl w
  | cons l r =>
    rw [append]
    have hpush : ∀ w : World, ∀ v, w.Aside (w.modifyTable id (·.push v)) :=
      fun _ _ => ⟨rfl, rfl, rfl, rfl⟩
    exact (aside_make w l).trans ((hpush _ _).trans (aside_append id _ r))

theorem aside_fill (id : Nat) (w : World) (ps : List (Literal × Literal)) :
    w.Aside (fill id w ps) := by
  cases ps with
  | nil => rw [fill]; exact .refl w
  | cons p r =>
    obtain ⟨k, v⟩ := p
    rw [fill]
    have hset : ∀ w : World, ∀ k v, w.Aside (w.setEntry id k v) := fun _ _ _ => ⟨rfl, rfl, rfl, rfl⟩
    exact (aside_make w k).trans ((aside_make _ v).trans ((hset _ _ _).trans (aside_fill id _ r)))

end

theorem aside_makeEach (w : World) (ls : List Literal) : w.Aside (makeEach w ls).2 := by
  induction ls generalizing w with
  | nil => exact .refl w
  | cons l r ih => exact (aside_make w l).trans (ih _)

end Literal

namespace Program

variable {Ok : Property} {α β : Type}

namespace Domestic

/-! ### Programs around other programs -/

theorem withConverted (h : Domestic Ok) (f : World → Except ConversionError α)
    {k : α → Program (Except BridgeError β)} (hk : ∀ a, Ok (k a)) :
    Ok (Bridge.withConverted f k) := by
  refine h.bind h.world fun w => ?_
  split
  · exact hk _
  · exact h.pure _

theorem holding (h : Domestic Ok) (vs : List HostValue) {p : Program α} (hp : Ok p) :
    Ok (Bridge.holding vs p) :=
  h.bind (h.modify fun _ => ⟨rfl, rfl, rfl, rfl⟩) fun _ => h.bind hp fun _ =>
    h.bind (h.modify fun _ => ⟨rfl, rfl, rfl, rfl⟩) fun _ => h.pure _

theorem withHost (h : Domestic Ok) {p : Program α} (hp : Ok p) : Ok (Bridge.withHost p) := by
  refine h.bind h.world fun w => ?_
  split
  · exact h.bind (h.modify fun _ => ⟨rfl, rfl, rfl, rfl⟩) fun _ => h.bind hp fun _ =>
      h.bind (h.modify fun _ => ⟨rfl, rfl, rfl, rfl⟩) fun _ => h.pure _
  · exact h.pure _

theorem onHost (h : Domestic Ok) {p : Program Scenario.Outcome} (hp : Ok p) :
    Ok (Scenario.onHost p) := by
  refine h.bind h.world fun w => ?_
  split
  · exact h.bind (h.withHost hp) fun _ => h.pure _
  · exact h.pure _

/-! ### The interpreter calling the host -/

theorem handOver (h : Domestic Ok) (v : Value) : Ok (Bridge.handOver v) :=
  h.update fun _ => ⟨rfl, rfl, rfl, rfl⟩

theorem handOverEach (h : Domestic Ok) (vs : List Value) : Ok (Bridge.handOverEach vs) :=
  h.update fun _ => ⟨rfl, rfl, rfl, rfl⟩

theorem newObject (h : Domestic Ok) (o : HostObject) : Ok (Bridge.newObject o) :=
  h.update fun _ => ⟨rfl, rfl, rfl, rfl⟩

theorem newTable (h : Domestic Ok) (vs : List HostValue) : Ok (Bridge.newTable vs) :=
  h.update fun _ => ⟨rfl, rfl, rfl, rfl⟩

theorem resultError (h : Domestic Ok) (i : Nat) :
    Ok (Bridge.resultError i : Program (Except BridgeError α)) :=
  h.bind (h.result i) fun _ => h.pure _

theorem returnTo (h : Domestic Ok) (i : Nat) (outcome : Except HostError (List HostValue)) :
    Ok (Bridge.returnTo i outcome) := by
  refine h.bind (h.setResult i _) fun _ => ?_
  split
  · exact h.fail i _
  · refine h.bind h.world fun w => ?_
    split
    · exact h.bind (h.setResult i _) fun _ => h.pure _
    · exact h.fail i _

/-! ### Scripted procedures -/

theorem runBody (h : Domestic Ok) (i : Nat) (body : List InterpreterStep) :
    Ok (Scenario.runBody i body) :=
  h.each (fun step => h.bind (h.interpreterStep i step) fun _ => h.log _) body

theorem runCommand (h : Domestic Ok) (i : Nat) (label : String) (body : List InterpreterStep)
    (result : Option Value) (status : Status) (words : List Value) :
    Ok (Scenario.runCommand i label body result status words) := by
  refine h.bind (h.log _) fun _ => h.bind (h.runBody i body) fun _ => ?_
  split
  · exact h.bind (h.setResult i _) fun _ => h.pure _
  · exact h.bind (h.pure ()) fun _ => h.pure _

theorem runTrace (h : Domestic Ok) (i : Nat) (procedure : String) (body : List InterpreterStep)
    (veto : Option String) (r : VarRef) (flags : Flags) :
    Ok (Scenario.runTrace i procedure body veto r flags) :=
  h.bind (h.log _) fun _ => h.bind (h.runBody i body) fun _ => h.pure _

theorem runDeleted (h : Domestic Ok) (i : Nat) (label : String) (body : List InterpreterStep) :
    Ok (Scenario.runDeleted i label body) :=
  h.bind (h.log _) fun _ => h.runBody i body

/-! ### Procedures of commands -/

theorem callFor (h : Domestic Ok) (hhost : ∀ f args, Ok (Program.callHost f args)) (i : Nat)
    (function : World → HostValue) (args : List Value) : Ok (Bridge.callFor i function args) := by
  refine h.bind (h.withHost (h.bind h.world fun _ => h.bind (h.handOverEach args) fun _ =>
    h.bind (hhost ..) fun _ => h.returnTo ..)) fun status => ?_
  split
  · exact h.pure _
  · exact h.fail i _

/-- **Every procedure of a command has a property that the operations have**, calls of the
host and renaming included. -/
theorem performProcedure (h : Domestic Ok) (hhost : ∀ f args, Ok (Program.callHost f args))
    (hrename : ∀ i old new, Ok (Interp.renameCommand i old new)) (i : Nat) (p : Procedure)
    (words : List Value) : Ok (Scenario.perform i p words) := by
  cases p with
  | builtin b => exact h.runBuiltin b i (hrename i) words
  | callGlobal =>
    change Ok (Bridge.callGlobal i words)
    unfold Bridge.callGlobal
    split
    · exact h.callFor hhost ..
    · exact h.pure _
  | callRegistered handle key => exact h.callFor hhost ..
  | scripted label body result status => exact h.runCommand ..

end Domestic

namespace Conduct

theorem callHost (h : Conduct Ok) (f : HostValue) (args : List HostValue) :
    Ok (Program.callHost f args) :=
  h.request trivial

theorem callTraced (h : Conduct Ok) (i handle : Nat) (client : String) (r : VarRef)
    (flags : Flags) : Ok (Bridge.callTraced i handle client r flags) :=
  h.bind h.world fun _ => h.bind (h.result i) fun _ => h.bind (h.setResult i _) fun _ =>
    h.bind (h.callHost ..) fun _ => h.bind (h.setResult i _) fun _ => h.pure _

/-! ### Requests to the library -/

theorem finish (h : Conduct Ok) (i : Nat) (status : Status) : Ok (Bridge.finish i status) := by
  unfold Bridge.finish
  split
  · exact h.resultError i
  · exact h.bind (h.result i) fun _ => h.bind (h.handOver _) fun _ => h.pure _

theorem eval (h : Conduct Ok) (handle : Nat) (script : String) :
    Ok (Bridge.eval handle script) :=
  h.withLive handle fun i => h.bind (h.setResult i _) fun _ => h.bind (h.request trivial) fun _ =>
    h.finish i _

theorem dispatch (h : Conduct Ok) (i : Nat) (words : List Value) : Ok (Bridge.dispatch i words) :=
  h.bind (h.setResult i _) fun _ => h.bind (h.request trivial) fun _ => h.finish i _

theorem call (h : Conduct Ok) (handle : Nat) (command : String) (args : List HostValue) :
    Ok (Bridge.call handle command args) :=
  h.withLive handle fun i => h.withConverted _ fun _ => h.dispatch i _

theorem callTable (h : Conduct Ok) (handle : Nat) (command : String) (table : Option Nat) :
    Ok (Bridge.callTable handle command table) := by
  refine h.withLive handle fun i => ?_
  split
  · exact h.dispatch i _
  · exact h.withConverted _ fun _ => h.dispatch i _

theorem makeArgList (h : Conduct Ok) (mark : String) (table : Option Nat) :
    Ok (Bridge.makeArgList mark table) := by
  unfold Bridge.makeArgList
  split
  · exact h.bind (h.newTable _) fun _ => h.pure _
  · exact h.withConverted _ fun _ => h.bind (h.newTable _) fun _ => h.pure _

theorem finishAccess (h : Conduct Ok) (i : Nat) (v : Option Value) :
    Ok (Bridge.finishAccess i v) := by
  unfold Bridge.finishAccess
  split
  · exact h.bind (h.handOver _) fun _ => h.pure _
  · exact h.resultError i

theorem getVar (h : Conduct Ok) (handle : Nat) (name : String) (key : Option String)
    (flags : Flags) : Ok (Bridge.getVar handle name key flags) :=
  h.withLive handle fun i => h.bind (h.read ..) fun _ => h.finishAccess i _

theorem setVar (h : Conduct Ok) (handle : Nat) (name : String) (key : Option String)
    (v : HostValue) (flags : Flags) : Ok (Bridge.setVar handle name key v flags) :=
  h.withLive handle fun i => h.withConverted _ fun _ => h.bind (h.write ..) fun _ =>
    h.finishAccess i _

theorem unsetVar (h : Conduct Ok) (handle : Nat) (name : String) (key : Option String)
    (flags : Flags) : Ok (Bridge.unsetVar handle name key flags) := by
  refine h.withLive handle fun i => h.bind (h.unset ..) fun status => ?_
  split
  · exact h.resultError i
  · exact h.pure _

theorem unregister (h : Conduct Ok) (handle : Nat) (name : String) :
    Ok (Bridge.unregister handle name) :=
  h.withLive handle fun i => h.bind (h.deleteCommand i name) fun _ => h.pure _

theorem withEncoding (h : Conduct Ok) (handle : Nat) (name : Option String)
    (k : Encoding → Bytes) : Ok (Bridge.withEncoding handle name k) := by
  refine h.withLive handle fun i => h.bind (h.findEncoding i name) fun e => ?_
  split
  · exact h.pure _
  · exact h.bind (h.result i) fun _ => h.pure _

theorem listEncodings (h : Conduct Ok) (handle : Nat) : Ok (Bridge.listEncodings handle) :=
  h.withLive handle fun i => h.bind (h.setResult i _) fun _ => h.bind (h.result i) fun _ =>
    h.bind (h.handOver _) fun _ => h.pure _

theorem abandon (h : Conduct Ok) (handle : Nat) (message : String) :
    Ok (Bridge.abandon handle message) :=
  h.bind (h.destroy handle) fun _ => h.pure _

theorem prepare (h : Conduct Ok) (handle i : Nat) (s : Settings) :
    Ok (Bridge.prepare handle i s) := by
  refine h.bind (h.createCommand i _ fun _ _ => nofun) fun created => ?_
  split
  · refine h.bind (h.start i _) fun status => ?_
    split
    · exact h.bind (h.result i) fun _ => h.abandon ..
    · exact h.pure _
  · exact h.abandon ..

theorem create (h : Conduct Ok) (s : Settings) : Ok (Bridge.create s) := by
  refine h.bind (h.addInterpreter _) fun i => h.bind (h.setSystemEncoding i _) fun status => ?_
  split
  · exact h.bind (h.result i) fun _ => h.bind (h.delete i) fun _ => h.pure _
  · exact h.bind (h.addHandle i s) fun _ => h.prepare ..

theorem createObject (h : Conduct Ok) (s : Settings) : Ok (Request.createObject s) := by
  refine h.bind (h.create s) fun r => ?_
  split
  · exact h.pure _
  · exact h.bind (h.newObject _) fun _ => h.pure _

theorem single (h : Conduct Ok) {p : Program (Except BridgeError HostValue)} (hp : Ok p) :
    Ok (Request.single p) :=
  h.bind hp fun _ => h.pure _

theorem silent (h : Conduct Ok) {p : Program (Except BridgeError Unit)} (hp : Ok p) :
    Ok (Request.silent p) :=
  h.bind hp fun _ => h.pure _

theorem bytes (h : Conduct Ok) {p : Program (Except BridgeError Bytes)} (hp : Ok p) :
    Ok (Request.bytes p) :=
  h.bind hp fun _ => h.pure _

/-- **Every request to the library has a property that the operations have.** -/
theorem perform (h : Conduct Ok) (r : Request) : Ok r.perform := by
  cases r with
  | create s => exact h.single (h.createObject s)
  | eval => exact h.single (h.eval ..)
  | call => exact h.single (h.call ..)
  | callTable => exact h.single (h.callTable ..)
  | makeArgList => exact h.single (h.bind h.world fun _ => h.makeArgList ..)
  | getVar => exact h.single (h.getVar ..)
  | setVar => exact h.single (h.setVar ..)
  | unsetVar => exact h.silent (h.unsetVar ..)
  | traceVar => exact h.silent (h.traceVar ..)
  | untraceVar => exact h.silent (h.untraceVar ..)
  | register => exact h.silent (h.register ..)
  | unregister => exact h.silent (h.unregister ..)
  | toExternal => exact h.bytes (h.withEncoding ..)
  | toHost => exact h.bytes (h.withEncoding ..)
  | listEncodings => exact h.single (h.listEncodings _)
  | bundle => exact h.single (h.withLive _ fun i => h.buildBundle i _)
  | values | describeHandle | describeBundle => exact h.pure _

theorem runLibrary (h : Conduct Ok) (f : LibraryFunction) (args : List HostValue) :
    Ok (f.run args) := by
  refine h.bind h.world fun w => ?_
  split
  · exact h.pure _
  · exact h.bind (h.perform _) fun _ => h.pure _

/-! ### Calls of host values -/

theorem makeEach (h : Conduct Ok) (ls : List Literal) : Ok (Scenario.makeEach ls) :=
  h.update fun w => Literal.aside_makeEach w ls

theorem make (h : Conduct Ok) (l : Literal) : Ok (Scenario.make l) :=
  h.update fun w => Literal.aside_make w l

/-- What a function of the host does has the property, whatever it makes of what comes back. -/
theorem runBehaviour (h : Conduct Ok) (b : Behaviour) : Ok (Scenario.runBehaviour b) := by
  induction b with
  | done outcome => exact h.pure _
  | make literals next ih => exact h.bind (h.makeEach _) fun vs => ih vs
  | call function args next ih => exact h.bind (h.callHost ..) fun outcome => ih outcome
  | step s next ih => exact h.bind (h.request trivial) fun outcome => ih outcome
  | log e next ih => exact h.bind (h.log _) fun _ => ih

theorem callValue (h : Conduct Ok) (f : HostValue) (args : List HostValue) :
    Ok (Scenario.callValue f args) := by
  have hcall : ∀ f, Ok (Scenario.callFunction f args) := by
    intro f
    cases f with
    | library f => exact h.runLibrary f args
    | silent label => exact h.pure _
    | scripted label behave =>
      exact h.bind h.world fun _ => h.bind (h.log _) fun _ => h.runBehaviour (behave args)
  cases f with
  | function id => exact h.bind h.world fun _ => h.holding args (hcall _)
  | _ => exact h.pure _

/-! ### Steps of a bridge scenario -/

theorem gaveValue (h : Conduct Ok) (v : HostValue) : Ok (Scenario.gaveValue v) :=
  h.bind h.world fun _ => h.pure _

theorem gaveValues (h : Conduct Ok) (vs : List HostValue) : Ok (Scenario.gaveValues vs) :=
  h.bind h.world fun _ => h.pure _

theorem finished (h : Conduct Ok) (r : Except BridgeError α) {k : α → Program Scenario.Outcome}
    (hk : ∀ a, Ok (k a)) : Ok (Scenario.finished r k) := by
  unfold Scenario.finished
  split
  · exact hk _
  · exact h.pure _

theorem finishedValue (h : Conduct Ok) {p : Program (Except BridgeError HostValue)} (hp : Ok p) :
    Ok (do Scenario.finished (← p) Scenario.gaveValue) :=
  h.bind hp fun r => h.finished r h.gaveValue

theorem finishedUnit (h : Conduct Ok) {p : Program (Except BridgeError Unit)} (hp : Ok p) :
    Ok (do Scenario.finishedUnit (← p)) :=
  h.bind hp fun r => h.finished r fun _ => h.pure _

theorem finishedBytes (h : Conduct Ok) {p : Program (Except BridgeError Bytes)} (hp : Ok p) :
    Ok (do Scenario.finishedBytes (← p)) :=
  h.bind hp fun r => h.finished r fun _ => h.gaveValue _

theorem finishedCall (h : Conduct Ok) (r : Except HostError (List HostValue)) :
    Ok (Scenario.finishedCall r) := by
  unfold Scenario.finishedCall
  split
  · exact h.gaveValues _
  · exact h.pure _

theorem onHandle (h : Conduct Ok) (label : String) {k : Nat → Program Scenario.Outcome}
    (hk : ∀ id, Ok (k id)) : Ok (Scenario.onHandle label k) := by
  refine h.bind h.world fun w => ?_
  split
  · exact h.holding _ (hk _)
  · exact h.pure _

theorem onBundle (h : Conduct Ok) (label : String) {k : Nat → Program Scenario.Outcome}
    (hk : ∀ id, Ok (k id)) : Ok (Scenario.onBundle label k) := by
  refine h.bind h.world fun w => ?_
  split
  · exact hk _
  · exact h.pure _

theorem onTable (h : Conduct Ok) (label : String) {k : Nat → Program Scenario.Outcome}
    (hk : ∀ id, Ok (k id)) : Ok (Scenario.onTable label k) := by
  refine h.bind h.world fun w => ?_
  split
  · exact hk _
  · exact h.pure _

theorem withFunction (h : Conduct Ok) (label : String) {k : Nat → Program Scenario.Outcome}
    (hk : ∀ id, Ok (k id)) : Ok (Scenario.withFunction label k) := by
  refine h.bind h.world fun w => ?_
  split
  · exact hk _
  · exact h.pure _

theorem withValue (h : Conduct Ok) (l : Literal) {k : HostValue → Program Scenario.Outcome}
    (hk : ∀ v, Ok (k v)) : Ok (Scenario.withValue l k) :=
  h.bind (h.make l) fun v => h.holding _ (hk v)

theorem withValues (h : Conduct Ok) (ls : List Literal)
    {k : List HostValue → Program Scenario.Outcome} (hk : ∀ vs, Ok (k vs)) :
    Ok (Scenario.withValues ls k) :=
  h.bind (h.makeEach ls) fun vs => h.holding _ (hk vs)

theorem callLibrary (h : Conduct Ok) (function : String) (args : List HostValue) :
    Ok (Scenario.callLibrary function args) := by
  refine h.bind h.world fun w => h.bind (h.callHost ..) fun r => ?_
  split
  · split
    · exact h.pure _
    · exact h.gaveValues _
  · exact h.pure _

theorem callGlobal (h : Conduct Ok) (name : String) (args : List HostValue) :
    Ok (Scenario.callGlobal name args) := by
  refine h.bind h.world fun w => ?_
  dsimp only
  split
  · exact h.pure _
  · exact h.bind (h.callHost ..) fun r => h.finishedCall r

theorem setTable (h : Conduct Ok) (id : Nat) (k v : HostValue) :
    Ok (Scenario.setTable id k v) := by
  refine h.bind h.world fun w => ?_
  split
  · exact h.bind (h.modify fun _ => ⟨rfl, rfl, rfl, rfl⟩) fun _ => h.pure _
  · exact h.pure _

theorem newInterpreter (h : Conduct Ok) (settings : Option String) :
    Ok (Scenario.newInterpreter settings) := by
  unfold Scenario.newInterpreter
  split
  · exact h.pure _
  · exact h.onHost (h.finishedValue (h.createObject _))

theorem bundleInfo (h : Conduct Ok) (id : Nat) : Ok (Scenario.bundleInfo id) :=
  h.bind h.world fun _ => h.pure _

theorem splice (h : Conduct Ok) (id : Nat) : Ok (Scenario.splice id) := by
  refine h.bind h.world fun w => ?_
  split <;> exact h.pure _

theorem setLabel? (h : Conduct Ok) (label : Option String) (v : HostValue) :
    Ok (Program.modify (·.setLabel? label v)) :=
  h.modify fun w => w.aside_setLabel? label v

/-- Every operation of a step has a property that the operations have. -/
theorem runOp (h : Conduct Ok) (save : Option String) (op : BridgeOp) :
    Ok (Scenario.runOp save op) := by
  cases op with
  | library function args receiver =>
    exact h.onHost (h.bind h.world fun _ => h.bind (h.makeEach _) fun _ => h.callLibrary ..)
  | constant name => exact h.bind h.world fun _ => h.gaveValue _
  | setGlobal name v =>
    exact h.onHost (h.bind (h.make v) fun _ =>
      h.bind (h.modify fun _ => ⟨rfl, rfl, rfl, rfl⟩) fun _ => h.pure _)
  | getGlobal name => exact h.onHost (h.bind h.world fun _ => h.gaveValue _)
  | callGlobal name args => exact h.onHost (h.bind (h.makeEach _) fun _ => h.callGlobal ..)
  | hostCall v args =>
    exact h.onHost (h.bind (h.make v) fun _ => h.bind (h.makeEach _) fun _ =>
      h.bind (h.callHost ..) fun r => h.finishedCall r)
  | dropHost => exact h.bind (h.modify fun _ => ⟨rfl, rfl, rfl, rfl⟩) fun _ => h.pure _
  | drop label => exact h.bind (h.modify fun _ => ⟨rfl, rfl, rfl, rfl⟩) fun _ => h.pure _
  | value v => exact h.bind (h.make v) fun _ => h.gaveValue _
  | setTable label k v =>
    exact h.onTable label fun id => h.bind (h.make k) fun _ => h.bind (h.make v) fun _ =>
      h.setTable ..
  | engineOf on =>
    exact h.onHandle on fun id => h.bind h.world fun _ => h.bind (h.newObject _) fun _ =>
      h.bind (h.setLabel? ..) fun _ => h.pure _
  | engineState label =>
    refine h.bind h.world fun w => ?_
    split <;> exact h.pure _
  | newInterpreter settings => exact h.newInterpreter settings
  | bundleInfo label => exact h.onBundle label h.bundleInfo
  | teardown label =>
    exact h.onBundle label fun id => h.bind (h.teardown id) fun _ => h.bundleInfo id
  | splice label => exact h.onBundle label h.splice
  | eval on script => exact h.onHandle on fun id => h.finishedValue (h.eval ..)
  | call on command args =>
    exact h.onHandle on fun id => h.withValues args fun vs => h.finishedValue (h.call ..)
  | callTable on command table =>
    exact h.onHandle on fun id => h.withValue table fun t => h.finishedValue (h.callTable ..)
  | makeArgList on table =>
    exact h.onHandle on fun id => h.withValue table fun t => h.bind h.world fun _ =>
      h.finishedValue (h.makeArgList ..)
  | getVar on name key flags => exact h.onHandle on fun id => h.finishedValue (h.getVar ..)
  | setVar on name key v flags =>
    exact h.onHandle on fun id => h.withValue v fun _ => h.finishedValue (h.setVar ..)
  | unsetVar on name key flags => exact h.onHandle on fun id => h.finishedUnit (h.unsetVar ..)
  | traceVar on name key flags function =>
    exact h.onHandle on fun id => h.withFunction function fun f => h.finishedUnit (h.traceVar ..)
  | untraceVar on name key flags function =>
    exact h.onHandle on fun id => h.withFunction function fun f => h.finishedUnit (h.untraceVar ..)
  | register on name function =>
    exact h.onHandle on fun id => h.withFunction function fun f => h.finishedUnit (h.register ..)
  | unregister on name => exact h.onHandle on fun id => h.finishedUnit (h.unregister ..)
  | toExternal on src encoding =>
    exact h.onHandle on fun id => h.finishedBytes (h.withEncoding ..)
  | toHost on src encoding => exact h.onHandle on fun id => h.finishedBytes (h.withEncoding ..)
  | listEncodings on => exact h.onHandle on fun id => h.finishedValue (h.listEncodings id)
  | bundle on values =>
    exact h.onHandle on fun id => h.withValues values fun vs => h.bind h.world fun _ =>
      h.finishedValue (h.buildBundle ..)
  | destroy on => exact h.onHandle on fun id => h.bind (h.destroy id) fun _ => h.pure _
  | repr on => exact h.onHandle on fun id => h.pure _
  | traces on name key =>
    exact h.onHandle on fun id => h.bind h.world fun _ => h.bind (h.reading _) fun _ => h.pure _
  | varExists on name key =>
    exact h.onHandle on fun id => h.bind h.world fun _ => h.bind (h.reading _) fun _ => h.pure _
  | state on => exact h.onHandle on fun id => h.bind h.world fun _ => h.pure _
  | unknown kind => exact h.pure _

theorem collect (h : Conduct Ok) : Ok Scenario.collect := by
  refine h.bind h.world fun w => h.each (fun o => ?_) _
  cases o with
  | handle id => exact h.destroy id
  | bundle id => exact h.teardown id
  | thing | engine => exact h.pure ()

theorem keep (h : Conduct Ok) (step : BridgeStep) (outcome : Scenario.Outcome) :
    Ok (Scenario.keep step outcome) := by
  unfold Scenario.keep
  split
  · exact h.pure ()
  · exact h.setLabel? ..
  · exact h.pure ()

/-- **Every step of a bridge scenario has a property that the operations have.** -/
theorem runBridgeStep (h : Conduct Ok) (step : BridgeStep) : Ok (Scenario.runBridgeStep step) :=
  h.bind h.collect fun _ => h.bind (h.runOp ..) fun _ => h.bind (h.keep ..) fun _ =>
    h.bind (h.holding _ h.collect) fun _ => h.pure _

/-! ### Steps of an interpreter scenario -/

section InterpreterSteps

variable {i : Nat}

theorem ended (h : Conduct Ok) {p : Program Status} (hp : Ok p) :
    Ok (do Scenario.ended i (← p)) :=
  h.bind hp fun _ => h.bind (h.result i) fun _ => h.pure _

theorem given (h : Conduct Ok) {p : Program (Option Value)} (hp : Ok p) :
    Ok (do Scenario.given i (← p)) := by
  refine h.bind hp fun v => ?_
  unfold Scenario.given
  split
  · exact h.pure _
  · exact h.bind (h.result i) fun _ => h.pure _

theorem useCount (h : Conduct Ok) (i : Nat) : Ok (Scenario.useCount i) :=
  h.bind (h.interpreter i) fun _ => h.pure _

theorem codecFor (h : Conduct Ok) (i : Nat) (name : Option String) :
    Ok (Scenario.codecFor i name) := by
  refine h.bind (h.findEncoding i name) fun e => ?_
  split
  · exact h.pure _
  · exact h.bind (h.interpreter i) fun _ => h.pure _

theorem saveResult (h : Conduct Ok) (i : Nat) : Ok (Scenario.saveResult i) :=
  h.bind (h.result i) fun _ => h.bind (h.modify fun _ => ⟨rfl, rfl, rfl, rfl⟩) fun _ =>
    h.setResult i _

theorem restoreResult (h : Conduct Ok) (i : Nat) : Ok (Scenario.restoreResult i) := by
  refine h.bind h.world fun w => ?_
  split
  · exact h.pure _
  · exact h.bind (h.modify fun _ => ⟨rfl, rfl, rfl, rfl⟩) fun _ => h.setResult i _

/-- **Every step of an interpreter scenario has a property that the operations have**
and that, as far as the step uses them, renaming, raw traces and raw uses of an
interpreter have, too. -/
theorem runStep (h : Conduct Ok) (i : Nat) (step : InterpreterStep)
    (hrename : ∀ old new, step = .rename old new → Ok (Interp.renameCommand i old new))
    (htrace : ∀ name key flags client procedure body veto,
      step = .trace name key flags client procedure body veto →
        ∀ t, Ok (Interp.addTrace i name key t))
    (huntrace : ∀ name key flags client, Ok (Interp.removeTrace i name key flags client))
    (hguard : Ok (Scenario.addGuard i)) (hunguard : Ok Scenario.dropGuard)
    (hpreserve : step = .preserve → Ok (Interp.preserve i))
    (hrelease : step = .release → Ok (Interp.release i)) : Ok (Scenario.runStep i step) := by
  cases step with
  | eval script => exact h.ended (h.request trivial)
  | evalWords words => exact h.ended (h.request trivial)
  | start script => exact h.ended (h.start i script)
  | read name key flags => exact h.given (h.read ..)
  | write name key v flags => exact h.given (h.write ..)
  | unset name key flags => exact h.ended (h.unset ..)
  | varExists name key => exact h.bind (h.reading _) fun _ => h.pure _
  | trace name key flags client procedure body veto => exact h.ended (htrace _ _ _ _ _ _ _ rfl _)
  | untrace name key flags client => exact h.bind (huntrace ..) fun _ => h.pure _
  | traces name key => exact h.bind (h.reading _) fun _ => h.pure _
  | traceCount client => exact h.bind (h.interpreter i) fun _ => h.pure _
  | create name label body result status onDelete =>
    exact h.bind (h.createCommand i name fun _ _ => nofun) fun _ => h.pure _
  | deleteCommand name => exact h.bind (h.deleteCommand i name) fun _ => h.pure _
  | hasCommand name => exact h.bind (h.interpreter i) fun _ => h.pure _
  | rename old new => exact h.ended (hrename old new rfl)
  | commands => exact h.bind (h.interpreter i) fun _ => h.pure _
  | result => exact h.bind (h.result i) fun _ => h.pure _
  | setResult v => exact h.bind (h.setResult i v) fun _ => h.pure _
  | resetResult => exact h.bind (h.setResult i _) fun _ => h.pure _
  | saveResult => exact h.bind (h.saveResult i) fun _ => h.bind (h.result i) fun _ => h.pure _
  | restoreResult =>
    exact h.bind (h.restoreResult i) fun _ => h.bind (h.result i) fun _ => h.pure _
  | error message => exact h.ended (h.fail i message)
  | wrongNumArgs words count usage => exact h.ended (h.fail i _)
  | preserve => exact h.bind (hpreserve rfl) fun _ => h.useCount i
  | release => exact h.bind (hrelease rfl) fun _ => h.useCount i
  | guard => exact h.bind hguard fun _ => h.useCount i
  | unguard => exact h.bind hunguard fun _ => h.useCount i
  | delete => exact h.bind (h.delete i) fun _ => h.pure _
  | state => exact h.bind (h.interpreter i) fun _ => h.pure _
  | getEncoding name =>
    exact h.bind (h.findEncoding i name) fun _ => h.bind (h.result i) fun _ => h.pure _
  | setSystemEncoding name => exact h.ended (h.setSystemEncoding i name)
  | encodingNames => exact h.bind (h.setResult i _) fun _ => h.bind (h.result i) fun _ => h.pure _
  | textToExternal name src capacity => exact h.bind (h.codecFor i name) fun _ => h.pure _
  | externalToText name src capacity => exact h.bind (h.codecFor i name) fun _ => h.pure _

end InterpreterSteps

/-! ### All calls -/

theorem fireTrace (h : Conduct Ok) (i : Nat) (t : Trace) (r : VarRef) (flags : Flags)
    (hadd : Ok (Interp.addTrace i r.name r.key t)) : Ok (Scenario.fireTrace i t r flags) := by
  unfold Scenario.fireTrace
  split
  · exact h.runTrace i _ _ _ r flags
  · unfold Bridge.fire
    split
    · exact h.pure _
    · split
      · refine h.bind hadd fun status => ?_
        split
        · exact h.bind (h.result i) fun _ => h.pure _
        · exact h.pure _
      · exact h.bind (h.withHost (h.callTraced i _ _ r flags)) fun _ => h.pure _

/-- **Whatever a call does has a property that the operations have**, evaluations
apart.  What the operations do not cover is asked for as far as the call needs it. -/
theorem handle (h : Conduct Ok) {c : Call} (hc : c.evaluated? = none)
    (hrename : c.IsRenaming → ∀ i old new, Ok (Interp.renameCommand i old new))
    (hdepth : ∀ i words, c = .invoke i words →
      Ok (Interp.enterCommand i) ∧ Ok (Interp.leaveCommand i))
    (hadd : ∀ i name key t, Ok (Interp.addTrace i name key t))
    (hremove : ∀ i name key flags client, Ok (Interp.removeTrace i name key flags client))
    (hforget : ∀ i handle key, c = .deleted i (.forget handle key) →
      Ok (Bridge.forgetFunction handle key))
    (hguard : ∀ i, Ok (Scenario.addGuard i)) (hunguard : Ok Scenario.dropGuard)
    (hpreserve : ∀ i, c = .interpreterStep i .preserve → Ok (Interp.preserve i))
    (hrelease : ∀ i, c = .interpreterStep i .release → Ok (Interp.release i)) :
    Ok (Scenario.handle c) := by
  cases c with
  | eval i script => cases hc
  | evalWords i words => cases hc
  | invoke i words =>
    obtain ⟨henter, hleave⟩ := hdepth i words rfl
    exact h.invokeWith (h.performProcedure h.callHost (hrename trivial)) i henter hleave words
  | fire i t r flags => exact h.fireTrace i t r flags (hadd ..)
  | deleted i action =>
    cases action with
    | forget handle key => exact hforget i handle key rfl
    | scripted label body => exact h.runDeleted i label body
  | host f args => exact h.callValue f args
  | interpreterStep i step =>
    refine h.runStep i step ?_ (fun name key _ _ _ _ _ _ => hadd i name key) (hremove i)
      (hguard i) hunguard ?_ ?_
    · rintro old new rfl
      exact hrename trivial i old new
    · rintro rfl
      exact hpreserve i rfl
    · rintro rfl
      exact hrelease i rfl
  | bridgeStep step => exact h.runBridgeStep step

end Conduct
end Program
end CommandBridge
