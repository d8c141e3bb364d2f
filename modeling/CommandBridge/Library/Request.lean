/-
# Requests to the library

A call of a library function is checked as a whole before anything is done: it
becomes a request, or it fails with the error of the first wrong argument.
-/

import CommandBridge.Library.Arguments
import CommandBridge.Settings.Text

namespace CommandBridge

/-- What a call of a library function asks for. -/
inductive Request where
  | create (settings : Settings)
  | eval (handle : Nat) (script : String)
  | call (handle : Nat) (command : String) (args : List HostValue)
  | callTable (handle : Nat) (command : String) (table : Option Nat)
  | makeArgList (handle : Nat) (table : Option Nat)
  | getVar (handle : Nat) (name : String) (key : Option String) (flags : Flags)
  | setVar (handle : Nat) (name : String) (key : Option String) (value : HostValue) (flags : Flags)
  | unsetVar (handle : Nat) (name : String) (key : Option String) (flags : Flags)
  | traceVar (handle : Nat) (name : String) (key : Option String) (flags : Flags) (function : Nat)
  | untraceVar (handle : Nat) (name : String) (key : Option String) (flags : Flags)
      (function : Nat)
  | register (handle : Nat) (name : String) (function : Nat)
  | unregister (handle : Nat) (name : String)
  | toExternal (handle : Nat) (src : Bytes) (encoding : Option String)
  | toHost (handle : Nat) (src : Bytes) (encoding : Option String)
  | listEncodings (handle : Nat)
  | bundle (handle : Nat) (values : List HostValue)
  | values (vs : List HostValue)
  | describeHandle (handle : Nat)
  | describeBundle (bundle : Nat)

namespace Request

/-- The settings that the argument of `new` describes. -/
def settings (a : Arguments) : Except BridgeError Settings := do
  match ← a.optionalText 1 with
  | none => return {}
  | some text => (Settings.ofText text).mapError fun e => a.error 1 e.message

/-- A flag word if it is part of another one, nil otherwise. -/
def contained (flags candidate : Flags) : HostValue :=
  if flags.contains candidate then .int (Int64.ofInt candidate.toInt) else .nil

/-- The request of a call. -/
def ofCall (w : World) (f : LibraryFunction) (args : List HostValue) :
    Except BridgeError Request := do
  let a : Arguments := ⟨f, args⟩
  match f with
  | .new => return .create (← settings a)
  | .eval =>
    let h ← a.handle w 1
    return .eval h (← a.text a.base)
  | .call =>
    let h ← a.handle w 1
    return .call h (← a.text a.base) (args.drop a.base)
  | .callt =>
    let h ← a.handle w 1
    let command ← a.text a.base
    return .callTable h command (← a.optionalTable (a.base + 1))
  | .makearglist =>
    let h ← a.handle w 1
    return .makeArgList h (← a.optionalTable 2)
  | .getvar =>
    let h ← a.handle w 1
    let name ← a.text 2
    return .getVar h name none (← a.optionalFlags 3)
  | .getarray =>
    let h ← a.handle w 1
    let name ← a.text 2
    let key ← a.optionalText 3
    return .getVar h name key (← a.optionalFlags 4)
  | .setvar =>
    let h ← a.handle w 1
    let name ← a.text 2
    return .setVar h name none (a.get 3) (← a.optionalFlags 4)
  | .setarray =>
    let h ← a.handle w 1
    let name ← a.text 2
    let key ← a.optionalText 3
    return .setVar h name key (a.get 4) (← a.optionalFlags 5)
  | .unsetvar =>
    let h ← a.handle w 1
    let name ← a.text 2
    return .unsetVar h name none (← a.optionalFlags 3)
  | .unsetarray =>
    let h ← a.handle w 1
    let name ← a.text 2
    let key ← a.optionalText 3
    return .unsetVar h name key (← a.optionalFlags 4)
  | .tracevar =>
    let h ← a.handle w 1
    let name ← a.text 2
    let key ← a.optionalText 3
    let flags ← a.flags 4
    return .traceVar h name key flags (← a.functionAt 5)
  | .untracevar =>
    let h ← a.handle w 1
    let name ← a.text 2
    let key ← a.optionalText 3
    let flags ← a.flags 4
    return .untraceVar h name key flags (← a.functionAt 5)
  | .register =>
    let h ← a.handle w 1
    let name ← a.text 2
    return .register h name (← a.functionAt 3)
  | .unregister =>
    let h ← a.handle w 1
    return .unregister h (← a.text 2)
  | .fromutf8 =>
    let h ← a.handle w 1
    let src ← a.bytes 2
    return .toExternal h src (← a.optionalText 3)
  | .toutf8 =>
    let h ← a.handle w 1
    let src ← a.bytes 2
    return .toHost h src (← a.optionalText 3)
  | .getencs => return .listEncodings (← a.handle w 1)
  | .vals =>
    if args.length ≤ 1 then .error (a.error 2 "not enough arguments")
    else return .bundle (← a.handle w 1) (args.drop 1)
  | .checkflags =>
    let _ ← a.handle w 1
    let flags ← a.flags 2
    let candidates ← (List.range' 3 (args.length - 2)).mapM a.flags
    return .values (candidates.map (contained flags))
  | .tostring =>
    match w.heap.object? (a.get 1) with
    | some (.bundle id) => return .describeBundle id
    | _ => return .describeHandle (← a.handle w 1)

end Request
end CommandBridge
