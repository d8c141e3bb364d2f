/-
# Machines

A machine runs a call.  It has the rest of the program of the current call, the
suspended callers on a stack and the world.  A step of the machine is one step
of the current program; a call suspends the program and starts the one that the
handler gives for it, and a finished program resumes its caller with the reply.
At an overflow the machine ends, whatever is on the stack.

The number of steps is bounded by `fuel`; a run that needs more has no outcome.
-/

import CommandBridge.Run.Program

namespace CommandBridge

/-- The programs that wait for the reply to a call, innermost first, up to the
outermost call `root`. -/
inductive Stack (root : Call) : Call → Type where
  | base : Stack root root
  | frame {caller : Call} (callee : Call) (k : callee.Reply → Program caller.Reply)
      (rest : Stack root caller) : Stack root callee

namespace Stack

variable {root : Call}

/-- The calls in progress, innermost first. -/
def calls : {c : Call} → Stack root c → List Call
  | _, .base => [root]
  | _, .frame callee _ rest => callee :: rest.calls

end Stack

/-- How a call ends: with its reply and the world that it leaves, or at an overflow. -/
inductive Ending (ρ : Type) where
  | reply (r : ρ) (w : World)
  | overflow (cause : Integer.Overflow)

/-- A machine on its way to the reply to `root`. -/
structure Machine (root : Call) where
  current : Call
  code : Program current.Reply
  stack : Stack root current
  world : World

namespace Machine

variable {root : Call}

/-- What every call does. -/
abbrev Handler := (c : Call) → Program c.Reply

/-- The machine that starts on a call. -/
def start (handler : Handler) (root : Call) (w : World) : Machine root :=
  ⟨root, handler root, .base, w⟩

/-- One step: another machine, or the end. -/
def step (handler : Handler) : Machine root → Machine root ⊕ Ending root.Reply
  | ⟨_, .done a, .base, w⟩ => .inr (.reply a w)
  | ⟨_, .done a, .frame _ k rest, w⟩ => .inl ⟨_, k a, rest, w⟩
  | ⟨c, .get k, stack, w⟩ => .inl ⟨c, k w, stack, w⟩
  | ⟨c, .set w p, stack, _⟩ => .inl ⟨c, p, stack, w⟩
  | ⟨_, .call c k, stack, w⟩ => .inl ⟨c, handler c, .frame c k stack, w⟩
  | ⟨_, .overflow cause, _, _⟩ => .inr (.overflow cause)

/-- Runs to the end within a number of steps. -/
def run (handler : Handler) : Nat → Machine root → Option (Ending root.Reply)
  | 0, _ => none
  | fuel + 1, m =>
    match m.step handler with
    | .inl m => run handler fuel m
    | .inr ending => some ending

/-- A longer run has the same outcome. -/
theorem run_mono {handler : Handler} {n k : Nat} {m : Machine root} {e : Ending root.Reply}
    (h : run handler n m = some e) (hnk : n ≤ k) : run handler k m = some e := by
  induction n generalizing k m with
  | zero => cases h
  | succ n ih =>
    obtain ⟨k, rfl⟩ : ∃ j, k = j + 1 := ⟨k - 1, by omega⟩
    rw [run] at h ⊢
    split at h
    · exact ih h (by omega)
    · exact h

end Machine
end CommandBridge
