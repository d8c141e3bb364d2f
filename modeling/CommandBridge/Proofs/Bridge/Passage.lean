/-
# Values that pass through the host

A value that the host is given and that it gives back has been converted twice.  It need
not have been converted alone: a registered command hands all its arguments over before it
calls its function, and every later one builds tables of its own.  But these are new
(`exists_toHost_of_getElem?`), so the argument that the function returns is what would have
come back without them (`exists_runs_invoke`).
-/

import CommandBridge.Proofs.Bridge.Registration
import CommandBridge.Proofs.Interpreter.ListEvaluation
import CommandBridge.Proofs.Marshal.RoundTrip

namespace CommandBridge

/-- A function does nothing but return, and the first value that it returns is its `k`-th
argument. -/
def HostFunction.Projects (k : Nat) (f : HostFunction) : Prop :=
  ∃ label behave, f = .scripted label behave ∧ ∀ args, ∃ values,
    behave args = .done (.ok values) ∧ values.headD .nil = args.getD k .nil

namespace Marshal

/-- An argument is converted in front of others, and their tables come after its own. -/
theorem exists_toHost_of_getElem? {v : Value} (vs : List Value) :
    ∀ {h : Heap} {k : Nat}, vs[k]? = some v → ∃ h' : Heap,
      (toHostEach h vs).1[k]? = some (toHost h' v).1 ∧
        (toHost h' v).2.Extends (toHostEach h vs).2 := by
  induction vs with
  | nil => exact fun hk => nomatch hk
  | cons x r ih =>
    intro h k hk
    rw [toHostEach_cons]
    cases k with
    | zero =>
      obtain rfl := Option.some.inj hk
      exact ⟨h, rfl, extends_toHostEach _ r⟩
    | succ k => exact ih hk

mutual

theorem functions_toHost (h : Heap) : (x : Value) → (toHost h x).2.functions = h.functions
  | .list elements => by
    rw [toHost_list]
    exact functions_toHostEach h elements
  | .empty | .int _ | .double _ | .boolean _ | .bytes _ | .text _ | .foreign _ _ => by
    rw [toHost]

theorem functions_toHostEach (h : Heap) : (xs : List Value) →
    (toHostEach h xs).2.functions = h.functions
  | [] => by
    rw [toHostEach]
  | x :: r => by
    rw [toHostEach_cons]
    exact (functions_toHostEach _ r).trans (functions_toHost h x)

end

end Marshal

namespace Bridge

variable {w : World} {i h f k : Nat} {key : String} {v : Value}
  {args : List Value}

/-- A function that does nothing but return values leaves the heap as it is. -/
theorem exists_runs_scripted {args values : List HostValue} {label : String}
    {behave : List HostValue → Behaviour} (hf : w.heap.functions.get f = .scripted label behave)
    (hbehave : behave args = .done (.ok values)) :
    ∃ w', Program.Runs Scenario.handle (Scenario.callValue (.function f) args) w
        (.ok values) w' ∧ w'.heap = w.heap := by
  have hrun : ∃ w', Program.Runs Scenario.handle
      (holding args (Scenario.callFunction (.scripted label behave) args)) w (.ok values) w' ∧
        w'.heap = w.heap := by
    rw [Scenario.callFunction, hbehave]
    exact ⟨_, .get (.set (.get (.get (.set (.get (.set (.done _ _))))))), rfl⟩
  rw [← hf] at hrun
  obtain ⟨w', hrun, hheap⟩ := hrun
  exact ⟨w', .get hrun, hheap⟩

/-- Such a function returns its argument. -/
theorem exists_runs_callValue (hf : (w.heap.functions.get f).Projects k) (args : List HostValue) :
    ∃ values w', Program.Runs Scenario.handle (Scenario.callValue (.function f) args) w
        (.ok values) w' ∧
      values.headD .nil = args.getD k .nil ∧ w'.heap = w.heap := by
  obtain ⟨label, behave, hf, hbehave⟩ := hf
  obtain ⟨values, hreturn, hvalues⟩ := hbehave args
  obtain ⟨w', hrun, hheap⟩ := exists_runs_scripted hf hreturn
  exact ⟨values, w', hrun, hvalues, hheap⟩

/-- A value that can be converted becomes the result. -/
theorem exists_runs_returnTo {values : List HostValue}
    (hv : Marshal.toTarget w.heap (values.headD .nil) = .ok v) :
    ∃ w', Program.Runs Scenario.handle (returnTo i (.ok values)) w .ok w' ∧
      (w'.interpreter i).result = v := by
  have hset : ∃ w', Program.Runs Scenario.handle (Interp.setResult i v >>= fun _ => pure Status.ok)
      (w.withResult i .empty) .ok w' ∧ (w'.interpreter i).result = v :=
    ⟨_, .get (.set (.done _ _)), congrArg Interpreter.result (World.interpreter_withResult _ i v)⟩
  obtain ⟨w', hset, hresult⟩ := hset
  refine ⟨w', .get (.set (.get ?_)), hresult⟩
  simp only [Program.bind, World.withInterpreter, hv]
  exact hset

/-- While a program runs on the host, the host is in use. -/
theorem runs_withHost {α : Type} {p : Program α} {a : α} {u : World} (halive : w.host.alive = true)
    (hp : Program.Runs Scenario.handle p
      { w with host := { w.host with borrowed := w.host.borrowed + 1 } } a u) :
    Program.Runs Scenario.handle (withHost p) w (some a)
      { u with host := { u.host with borrowed := u.host.borrowed - 1 } } := by
  refine .get ?_
  change Program.Runs _ (if w.host.alive then _ else _) w _ _
  rw [if_pos halive]
  exact .get (.set ((Program.runs_bind_iff (p := p)).2 ⟨a, u, hp, .get (.set (.done _ _))⟩))

/-- A registered command gives back what its function returns. -/
theorem exists_runs_callRegistered (hkept : w.Keeps h key f)
    (hf : (w.heap.functions.get f).Projects k) (halive : w.host.alive = true)
    {words : List Value} (hv : words.tail[k]? = some v) :
    ∃ w', Program.Runs Scenario.handle (callRegistered i h key words) w .ok w' ∧
      (w'.interpreter i).result = v.returned := by
  obtain ⟨heap', hk, hextends⟩ := Marshal.exists_toHost_of_getElem? words.tail (h := w.heap) hv
  -- the world in which the function is called: the host is in use, the arguments are there
  let w₁ : World := { w with
    host := { w.host with borrowed := w.host.borrowed + 1 }
    heap := (Marshal.toHostEach w.heap words.tail).2 }
  have hfunctions : w₁.heap.functions = w.heap.functions := Marshal.functions_toHostEach _ _
  obtain ⟨values, w₂, hcall, hvalues, hheap⟩ := exists_runs_callValue (w := w₁) (hfunctions ▸ hf)
    (Marshal.toHostEach w.heap words.tail).1
  have hback : Marshal.toTarget w₂.heap (values.headD .nil) = .ok v.returned := by
    rw [hvalues, List.getD_eq_getElem?_getD, hk, Option.getD_some, hheap]
    exact Marshal.convert_toHost_eq {} heap' v hextends nofun
  obtain ⟨w₃, hreturn, hresult⟩ := exists_runs_returnTo (i := i) hback
  refine ⟨_, Program.runs_bind_iff.2 ⟨some .ok, _, runs_withHost halive (u := w₃) ?_, .done _ _⟩,
    hresult⟩
  refine .get (.get (.set ((Program.runs_bind_iff (p := Program.callHost _ _)).2
    ⟨.ok values, w₂, Program.runs_request_iff.2 ?_, hreturn⟩)))
  change Program.Runs _ (Scenario.callValue (functionOf w h key) _) w₁ _ _
  rw [functionOf, show (w.handle h).functions[key]? = _ from hkept]
  exact hcall

/-- **An invocation of a command whose function returns an argument comes to its end, and
the result is what this argument comes back as.** -/
theorem exists_runs_invoke {name : Value} (hname : w.Carries i name.str h key)
    (hkept : w.Keeps h key f) (hf : (w.heap.functions.get f).Projects k)
    (hdepth : (w.interpreter i).depth < (w.interpreter i).maxNesting)
    (halive : w.host.alive = true) (hv : args[k]? = some v) :
    ∃ w', Program.Runs Scenario.handle (Scenario.handle (.invoke i (name :: args))) w .ok w' ∧
      (w'.interpreter i).result = v.returned := by
  let w₁ : World :=
    (w.withResult i .empty).withInterpreter i fun s => { s with depth := s.depth + 1 }
  have hv : (name :: args).tail[k]? = some v := hv
  obtain ⟨w₂, hperform, hresult⟩ := exists_runs_callRegistered (w := w₁) (i := i) hkept hf halive hv
  refine ⟨w₂.withInterpreter i fun s => { s with depth := s.depth - 1 },
    Interp.runs_interpreter_bind_iff.2 ?_, ?_⟩
  · rw [if_neg (Nat.not_le.2 hdepth), show (w.interpreter i).commands[name.str]? = _ from hname]
    exact .get (.set (.get (.set ((Program.runs_bind_iff (p := Scenario.perform i _ _)).2
      ⟨.ok, w₂, hperform, .get (.set (.done _ _))⟩))))
  · rw [World.interpreter_withInterpreter_self]
    exact hresult

end Bridge

/-- **What comes back from the host.**  Every value that is handed to the host can be
converted back, and it is known what becomes of it.  Integers, truth values, texts, byte
strings and lists of these keep their text, and with it their bytes, just if no text holds
zero beside a character that is not ASCII and no byte string encodes a text without zero
that is not ASCII; a byte string keeps its bytes just then.  In whatever state a command is
invoked that is registered for a function which returns one of its arguments: unless
commands are nested too deep or the host is gone, the invocation ends well, with this
argument as it comes back. -/
theorem Value.comes_back :
    (∀ (h : Heap) (v : Value), Marshal.toTarget (Marshal.toHost h v).2 (Marshal.toHost h v).1 =
        .ok v.returned) ∧
      (∀ v : Value, v.Discrete →
        (v.returned.str = v.str ↔ v.Kept) ∧ (v.Kept → v.returned.getBytes = v.getBytes)) ∧
      (∀ bs, (Value.bytes bs).returned.getBytes = bs ↔ (Value.bytes bs).Kept) ∧
      ∀ (w : World) (i h f k : Nat) (key : String) (name : Value) (args : List Value) (v : Value),
        w.Carries i name.str h key → w.Keeps h key f → (w.heap.functions.get f).Projects k →
        (w.interpreter i).depth < (w.interpreter i).maxNesting → w.host.alive = true →
        args[k]? = some v →
          ∃ n w', Scenario.outcome n (.invoke i (name :: args)) w = some (.reply .ok w') ∧
            (w'.interpreter i).result = v.returned := by
  refine ⟨fun h v => Marshal.convert_toHost_eq {} h v (.refl _) nofun, fun v hv => ?_,
    Value.getBytes_returned_bytes_iff, fun w i h f k key name args v hname hkept hf hdepth halive
      hv => ?_⟩
  · have hstr := Value.str_returned_iff v hv
    exact ⟨hstr, fun hkept => Value.getBytes_of_str_eq (hstr.2 hkept)⟩
  · obtain ⟨w', hrun, hresult⟩ := Bridge.exists_runs_invoke hname hkept hf hdepth halive hv
    obtain ⟨n, hn⟩ := (Scenario.exists_outcome_iff (.invoke i (name :: args))
      (e := .reply .ok w')).2 hrun
    exact ⟨n, w', hn, hresult⟩

/-- A new interpreter in which a command gives its second argument back. -/
def World.givingBack : World :=
  { (World.bridged 10).withRegistered 0 0 "second" 0 with
    heap := (({} : Heap).addFunction (.scripted "second" (.ofActions · [.resultArg 1]))).2 }

/-- A list of a text with zero and a byte that encodes nothing comes back as it was through
the second argument of a command. -/
theorem Value.comes_back_second :
    (Value.list [.text "a\x00", .bytes [0xFF]]).returned.str =
        (Value.list [.text "a\x00", .bytes [0xFF]]).str ∧
      ∃ n w', Scenario.outcome n
          (.invoke 0 [.text "second", .int 1, .list [.text "a\x00", .bytes [0xFF]]])
          .givingBack = some (.reply .ok w') ∧
        (w'.interpreter 0).result = (Value.list [.text "a\x00", .bytes [0xFF]]).returned := by
  have hnone : Utf8.text? [0xFF] = none := by
    rw [Utf8.text?, Utf8.decode?]
    rfl
  have hkept : (Value.list [.text "a\x00", .bytes [0xFF]]).Kept :=
    ⟨fun _ => (Utf8.length_encode_eq_iff _).1 rfl, fun _ hs => (by cases hnone.symm.trans hs),
      trivial⟩
  have hdiscrete : (Value.list [.text "a\x00", .bytes [0xFF]]).Discrete :=
    ⟨trivial, trivial, trivial⟩
  exact ⟨(Value.comes_back.2.1 _ hdiscrete).1.2 hkept,
    Value.comes_back.2.2.2 .givingBack 0 0 0 1 "second" (.text "second") [.int 1, _] _ rfl rfl
      ⟨"second", _, rfl, fun _ => ⟨_, rfl, rfl⟩⟩ (by decide) rfl rfl⟩

/-- The bytes of a text come back as the text, and a text with zero comes back as its bytes. -/
theorem Value.comes_back_changed :
    (Marshal.toTarget (Marshal.toHost {} (.bytes [0xC3, 0xA9])).2
          (Marshal.toHost {} (.bytes [0xC3, 0xA9])).1 = .ok (.text "é") ∧
        (Value.text "é").str ≠ (Value.bytes [0xC3, 0xA9]).str ∧
        (Value.text "é").getBytes ≠ (Value.bytes [0xC3, 0xA9]).getBytes) ∧
      Marshal.toTarget (Marshal.toHost {} (.text "é\x00")).2 (Marshal.toHost {} (.text "é\x00")).1 =
          .ok (.bytes [0xC3, 0xA9, 0]) ∧
        (Value.bytes [0xC3, 0xA9, 0]).str ≠ (Value.text "é\x00").str := by
  have htext : (Value.bytes (Utf8.encode "é")).returned = .text "é" := by
    rw [Value.returned, Utf8.text?_encode]
    rfl
  have hbytes : (Value.text "é\x00").returned = .bytes (Utf8.encode "é\x00") := by
    rw [Value.returned, if_pos (by decide)]
  refine ⟨⟨?_, by decide, by decide⟩, ?_, by decide⟩
  · exact (Marshal.convert_toHost_eq {} {} _ (.refl _) nofun).trans (congrArg Except.ok htext)
  · exact (Marshal.convert_toHost_eq {} {} _ (.refl _) nofun).trans (congrArg Except.ok hbytes)

end CommandBridge
