/-
# What the library does

`perform` carries a request out.  `run` is a whole call of a library function:
the check and, if it succeeds, the request.  `openLibrary` makes the table of all
functions and constants and puts it into the host global `ltcl`.
-/

import CommandBridge.Bridge.Bundles
import CommandBridge.Bridge.Encodings
import CommandBridge.Bridge.Evaluation
import CommandBridge.Bridge.Handles
import CommandBridge.Bridge.Traces
import CommandBridge.Bridge.Variables
import CommandBridge.Library.Request

namespace CommandBridge

namespace Request

/-- An operation that gives one value. -/
def single (p : Program (Except BridgeError HostValue)) :
    Program (Except BridgeError (List HostValue)) := do
  return (← p).map ([·])

/-- An operation that gives no value. -/
def silent (p : Program (Except BridgeError Unit)) :
    Program (Except BridgeError (List HostValue)) := do
  return (← p).map fun _ => []

/-- An operation that gives bytes. -/
def bytes (p : Program (Except BridgeError Bytes)) :
    Program (Except BridgeError (List HostValue)) := do
  return (← p).map fun bs => [.string bs]

/-- Makes a handle and the object that stands for it. -/
def createObject (s : Settings) : Program (Except BridgeError HostValue) := do
  match ← Bridge.create s with
  | .error e => return .error e
  | .ok handle => return .ok (← Bridge.newObject (.handle handle))

/-- Carries a request out. -/
def perform : Request → Program (Except BridgeError (List HostValue))
  | .create s => single (createObject s)
  | .eval h script => single (Bridge.eval h script)
  | .call h command args => single (Bridge.call h command args)
  | .callTable h command table => single (Bridge.callTable h command table)
  | .makeArgList h table =>
    single do Bridge.makeArgList (Bridge.optionMark (← Program.world) h) table
  | .getVar h name key flags => single (Bridge.getVar h name key flags)
  | .setVar h name key value flags => single (Bridge.setVar h name key value flags)
  | .unsetVar h name key flags => silent (Bridge.unsetVar h name key flags)
  | .traceVar h name key flags function => silent (Bridge.traceVar h name key flags function)
  | .untraceVar h name key flags function => silent (Bridge.untraceVar h name key flags function)
  | .register h name function => silent (Bridge.register h name function)
  | .unregister h name => silent (Bridge.unregister h name)
  | .toExternal h src encoding => bytes (Bridge.toExternal h src encoding)
  | .toHost h src encoding => bytes (Bridge.toHostEncoding h src encoding)
  | .listEncodings h => single (Bridge.listEncodings h)
  | .bundle h vs => single (Bridge.withLive h fun i => Bridge.buildBundle i vs)
  | .values vs => return .ok vs
  | .describeHandle h => return .ok [.ofText (Bridge.describeHandle h)]
  | .describeBundle b => return .ok [.ofText (Bridge.describeBundle b)]

end Request

namespace LibraryFunction

/-- The error as the host raises it. -/
def raised (e : BridgeError) : HostError :=
  ⟨e.message⟩

/-- Calls a library function. -/
def run (f : LibraryFunction) (args : List HostValue) :
    Program (Except HostError (List HostValue)) := do
  match Request.ofCall (← Program.world) f args with
  | .error e => return .error (raised e)
  | .ok r => return (← r.perform).mapError raised

/-- The constants of the library. -/
def constants : List (String × HostValue) :=
  let flag (f : Flags) : HostValue := .int (Int64.ofInt f.toInt)
  [("EVAL_GLOBAL", flag .evalGlobal), ("EVAL_DIRECT", flag .evalDirect),
    ("GLOBAL_ONLY", flag .globalOnly), ("NAMESPACE_ONLY", flag .namespaceOnly),
    ("APPEND_VALUE", flag .appendValue), ("LIST_ELEMENT", flag .listElement),
    ("TRACE_READS", flag .traceReads), ("TRACE_WRITES", flag .traceWrites),
    ("TRACE_UNSETS", flag .traceUnsets), ("TRACE_ARRAY", flag .traceArray),
    ("_VERSION", .number (.ofRatio false 9 10)), ("_REVISION", .int 1)]

/-- Adds a library function to a table. -/
def addTo (entry : String × LibraryFunction) (th : Table × Heap) : Table × Heap :=
  match th.2.addFunction (.library entry.2) with
  | (f, h) => (th.1.setField entry.1 f, h)

/-- The library table in a heap. -/
def libraryTable (h : Heap) : HostValue × Heap :=
  let (t, h) := named.foldl (fun th entry => addTo entry th) (.empty, h)
  h.addTable (constants.foldl (fun t entry => t.setField entry.1 entry.2) t)

end LibraryFunction

/-- Writes a global of the host. -/
def World.setGlobal (w : World) (name : String) (v : HostValue) : World :=
  let globals := w.host.globals
  { w with heap := w.heap.setTable globals ((w.heap.table globals).setField name v) }

/-- Makes the library table and the global that holds it. -/
def World.openLibrary (w : World) : HostValue × World :=
  match LibraryFunction.libraryTable w.heap with
  | (t, h) => (t, { w with heap := h }.setGlobal "ltcl" t)

end CommandBridge
