/-
# Traces that are still to be fired

An access or an unset fires the traces that it has found one by one, and a call that fires
one of them tells which are to be fired after it.  So what the loops in progress have still
to fire is seen from the calls in progress (`Call.Pending`).

What is invariant in such a loop depends on the traces that are left (`Program.Fires`): the
call that fires the first of them leads from an invariant of all to one of those behind.
When a trace vetoes, or when traces of the variable or element are firing already, the
others are dropped.
-/

import CommandBridge.Interpreter.Access
import CommandBridge.Proofs.Run.Monitor

namespace CommandBridge

namespace Call

/-- What is to be fired in the interpreter after the trace that the call fires. -/
def remaining (i : Nat) : Call → List Firing
  | .fire j _ _ _ later => if j = i then later else []
  | _ => []

/-- What the calls in progress have still to fire in the interpreter. -/
def Pending (cs : List Call) (i : Nat) (x : Firing) : Prop :=
  ∃ c ∈ cs, x ∈ c.remaining i

theorem Pending.cons {cs : List Call} {i : Nat} {x : Firing} (h : Pending cs i x) (c : Call) :
    Pending (c :: cs) i x :=
  h.imp fun _ hd => ⟨List.mem_cons_of_mem _ hd.1, hd.2⟩

theorem mem_remaining {i : Nat} {c : Call} {x : Firing} (hx : x ∈ c.remaining i) :
    ∃ j t r flags later, c = .fire j t r flags later ∧ j = i ∧ x ∈ later := by
  cases c with
  | fire j t r flags later =>
    rw [remaining] at hx
    split at hx
    · exact ⟨j, t, r, flags, later, rfl, ‹_›, hx⟩
    · cases hx
  | _ => cases hx

theorem pending_fire {cs : List Call} {i : Nat} {t : Trace} {r : VarRef} {flags : Flags}
    {later : List Firing} {x : Firing} (hx : x ∈ later) :
    Pending (.fire i t r flags later :: cs) i x :=
  ⟨_, List.mem_cons_self, by rwa [remaining, if_pos rfl]⟩

end Call

namespace Program

open Interp (firings groupFlags groupTraces groupFirings)

variable {σ : Type} {M : Monitor σ} {K : M.Contract} {cs : List Call} {c : Call} {j : Nat}
  {I : List Firing → σ → World → Prop}

/-- What is invariant in the loops of a call that fire traces in an interpreter, with the
traces that are left. -/
structure Fires (K : M.Contract) (cs : List Call) (c : Call) (j : Nat)
    (I : List Firing → σ → World → Prop) : Prop where
  dropped (xs : List Firing) {ys : List Firing} {s : σ} {w : World} : I (xs ++ ys) s w → I ys s w
  fire (x : Firing) (later : List Firing) :
    (Program.request (.fire j x.trace x.ref x.flags later)).Takes K cs c (I (x :: later)) (I later)
  active (f : List VarRef → List VarRef) (xs : List Firing) :
    (Program.modifyInterpreter j fun s => { s with active := f s.active }).Takes K cs c (I xs)
      (I xs)

namespace Fires

theorem fireEach (h : Fires K cs c j I) (r : VarRef) (flags : Flags) (ts : List Trace) :
    (Interp.fireEach j r flags ts).Takes K cs c (I (firings r flags ts)) (I []) := by
  induction ts with
  | nil => exact .pure none
  | cons t ts ih =>
    refine .bind (h.fire ⟨t, r, flags⟩ (firings r flags ts)) fun veto => ?_
    cases veto with
    | none => exact ih
    | some message =>
      exact fun s w hI => h.dropped (firings r flags ts) ((List.append_nil _).symm ▸ hI)

/-- An access fires what it finds, unless its traces are firing already. -/
theorem fireTraces (h : Fires K cs c j I) {r : VarRef} {op flags : Flags} {s : σ} {w : World}
    {J : σ → World → Prop} (hidle : J s w)
    (hfound : (w.interpreter j).vars.tracesFor r op ≠ [] →
      I (firings r (op.union flags.scope) ((w.interpreter j).vars.tracesFor r op)) s w)
    (hJ : ∀ s w, I [] s w → J s w) :
    (Interp.fireTraces j r op flags).Abides K cs c (fun _ => J) s w := by
  refine Program.abides_reading_iff.2 ?_
  dsimp only
  split
  · exact hidle
  · rename_i hfiring
    rw [Bool.or_eq_true, not_or, List.isEmpty_iff] at hfiring
    refine (Takes.bind (h.active (r :: ·) _) (fun _ => .bind (h.fireEach r _ _) fun _ =>
      .bind (h.active List.tail _) fun _ => .pure _) s w (hfound hfiring.2)).imp fun _ => hJ

theorem fireAll (h : Fires K cs c j I) (r : VarRef) (flags : Flags) (ts : List Trace)
    (xs : List Firing) :
    (Interp.fireAll j r flags xs ts).Takes K cs c (I (firings r flags ts ++ xs)) (I xs) := by
  induction ts with
  | nil => exact .pure ()
  | cons t ts ih =>
    exact .bind (.bind (h.fire ⟨t, r, flags⟩ (firings r flags ts ++ xs)) fun _ => .pure _)
      fun _ => ih

theorem fireGroup (h : Fires K cs c j I) (name : String) (extra : Flags) (g : UnsetGroup)
    (others : List UnsetGroup) :
    (Interp.fireGroup j name extra g others).Takes K cs c
      (I (groupFirings name extra (g :: others))) (I (groupFirings name extra others)) := by
  intro s w hI
  rw [groupFirings, List.flatMap_cons] at hI
  refine Program.abides_reading_iff.2 ?_
  split
  · exact h.dropped _ hI
  · exact Takes.bind (h.active (_ :: ·) _) (fun _ => .bind (h.fireAll _ _ _ _) fun _ =>
      h.active List.tail _) s w hI

theorem fireUnset (h : Fires K cs c j I) (name : String) (extra : Flags)
    (groups : List UnsetGroup) :
    (Interp.fireUnset j name extra groups).Takes K cs c (I (groupFirings name extra groups))
      (I []) := by
  induction groups with
  | nil => exact .pure ()
  | cons g groups ih => exact .bind (h.fireGroup name extra g groups) fun _ => ih

end Fires

end Program
end CommandBridge
