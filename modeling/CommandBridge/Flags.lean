/-
# Flag words

Evaluation, variable access and traces are controlled by a word of 32 bits.
`named` lists the bits that have a name, in the order in which a word is
written out.
-/

namespace CommandBridge

/-- A set of flag bits. -/
structure Flags where
  bits : UInt32
deriving DecidableEq, Repr, Inhabited

namespace Flags

def none : Flags := ⟨0⟩
def globalOnly : Flags := ⟨1⟩
def namespaceOnly : Flags := ⟨2⟩
def appendValue : Flags := ⟨4⟩
def listElement : Flags := ⟨8⟩
def traceReads : Flags := ⟨0x10⟩
def traceWrites : Flags := ⟨0x20⟩
def traceUnsets : Flags := ⟨0x40⟩
def traceDestroyed : Flags := ⟨0x80⟩
def interpDestroyed : Flags := ⟨0x100⟩
def leaveErrorMessage : Flags := ⟨0x200⟩
def traceArray : Flags := ⟨0x800⟩
def traceResultDynamic : Flags := ⟨0x8000⟩
def evalGlobal : Flags := ⟨0x20000⟩
def evalDirect : Flags := ⟨0x40000⟩

/-- The flags of an integer, modulo `2 ^ 32`. -/
def ofInt (i : Int) : Flags :=
  ⟨UInt32.ofNat (i % 0x100000000).toNat⟩

/-- The word as a signed integer. -/
def toInt (f : Flags) : Int :=
  if f.bits.toNat < 0x80000000 then f.bits.toNat else (f.bits.toNat : Int) - 0x100000000

/-- All bits of both. -/
def union (f g : Flags) : Flags := ⟨f.bits ||| g.bits⟩

/-- The common bits. -/
def inter (f g : Flags) : Flags := ⟨f.bits &&& g.bits⟩

/-- The bits of `f` that are not in `g`. -/
def without (f g : Flags) : Flags := ⟨f.bits &&& ~~~g.bits⟩

/-- Whether `f` has every bit of `g`. -/
def contains (f g : Flags) : Bool := f.bits &&& g.bits == g.bits

/-- Whether `f` and `g` have a bit in common. -/
def intersects (f g : Flags) : Bool := f.bits &&& g.bits != 0

def isEmpty (f : Flags) : Bool := f.bits == 0

/-- The operations that a trace can ask for. -/
def traceOps : Flags := ⟨0x870⟩

/-- The bits that are passed on to traces. -/
def scope (f : Flags) : Flags := f.inter ⟨3⟩

/-- The named bits, lowest first. -/
def named : List (Flags × String) :=
  [(globalOnly, "GLOBAL_ONLY"), (namespaceOnly, "NAMESPACE_ONLY"), (appendValue, "APPEND_VALUE"),
    (listElement, "LIST_ELEMENT"), (traceReads, "TRACE_READS"), (traceWrites, "TRACE_WRITES"),
    (traceUnsets, "TRACE_UNSETS"), (traceDestroyed, "TRACE_DESTROYED"),
    (interpDestroyed, "INTERP_DESTROYED"), (leaveErrorMessage, "LEAVE_ERR_MSG"),
    (traceArray, "TRACE_ARRAY"), (traceResultDynamic, "TRACE_RESULT_DYNAMIC"),
    (evalGlobal, "EVAL_GLOBAL"), (evalDirect, "EVAL_DIRECT")]

/-- Hexadecimal digits of a number. -/
def hex (n : Nat) : String :=
  String.ofList (Nat.toDigits 16 n)

/-- The names of the bits, and the bits without a name in hexadecimal. -/
def describe (f : Flags) : String :=
  if f.isEmpty then "Flags(NONE)"
  else
    let present := named.filter fun p => f.contains p.1
    let rest := present.foldl (fun r p => r.without p.1) f
    let parts := present.map (·.2) ++ (if rest.isEmpty then [] else ["0x" ++ hex rest.bits.toNat])
    "Flags(" ++ " | ".intercalate parts ++ ")"

end Flags
end CommandBridge
