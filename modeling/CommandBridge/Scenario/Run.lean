/-
# Running scenarios

A scenario runs step by step, and each step has a report: its answer, the events
in between and what was written to the channels.  A step that ends at an overflow
is the end of the scenario, and there is no report at all.  An interpreter that is
disposed of takes its commands and variables down in no particular order, so in
the report of such a step the events of that are put last and sorted.
-/

import CommandBridge.Scenario.Dispatch

namespace CommandBridge
namespace Scenario

/-- What a step did. -/
structure Report where
  answer : Answer
  events : List Event := []
  out : String := ""
  err : String := ""
deriving Inhabited

/-- The number of machine steps that a step of a scenario may take. -/
def budget : Nat := 1000000000000000

/-- The key that an event of a disposal is sorted by; other events have none. -/
def disposalKey? : Event → Option String
  | .deleted label => some ("deleted " ++ label)
  | .trace procedure name key flags =>
    if flags.contains .interpDestroyed then
      some ("trace " ++ procedure ++ " " ++ name ++ " " ++ key.getD "" ++ " " ++
        toString flags.toInt)
    else none
  | _ => none

/-- Events with those of the disposal at the end, sorted. -/
def settled (events : List Event) : List Event :=
  let keyed := events.filterMap fun e => (disposalKey? e).map fun k => (k, e)
  events.filter (fun e => (disposalKey? e).isNone) ++
    (keyed.mergeSort fun a b => a.1 ≤ b.1).map (·.2)

/-- Whether any interpreter was disposed of on the way between two worlds. -/
def disposedBetween (w w' : World) : Bool :=
  w'.interpreters.entries.toList.any fun p => p.2.disposed && !(w.interpreter p.1).disposed

/-- The report on a step between two worlds. -/
def report (answer : Answer) (w w' : World) : Report :=
  let events := w'.journal.events.reverse
  { answer
    events := if disposedBetween w w' then settled events else events
    out := w'.journal.out
    err := w'.journal.err }

/-- A world in which nothing has been written down. -/
def fresh (w : World) : World :=
  { w with journal := {} }

/-- Why a scenario has no reports. -/
inductive Failure where
  | noInterpreter (cause : HostError)
  | overflow (cause : Integer.Overflow)

/-- Runs the steps of an interpreter scenario; a step without an outcome ends it. -/
def runInterpreterSteps (w : World) : List InterpreterStep → Except Failure (List Report)
  | [] => .ok []
  | step :: rest =>
    match outcome budget (.interpreterStep 0 step) (fresh w) with
    | some (.reply answer w') => (runInterpreterSteps w' rest).map (report answer w w' :: ·)
    | some (.overflow cause) => .error (.overflow cause)
    | none => .ok []

/-- An interpreter scenario. -/
def runInterpreter (maxNesting : Nat) (steps : List InterpreterStep) :
    Except Failure (List Report) :=
  let w : World := {}
  runInterpreterSteps { w with interpreters := w.interpreters.add (.new maxNesting) } steps

/-- Runs the steps of a bridge scenario; a step without an outcome ends it. -/
def runBridgeSteps (w : World) : List BridgeStep → Except Failure (List Report)
  | [] => .ok []
  | step :: rest =>
    match outcome budget (.bridgeStep step) (fresh w) with
    | some (.reply o w') => (runBridgeSteps w' rest).map (report o.answer w w' :: ·)
    | some (.overflow cause) => .error (.overflow cause)
    | none => .ok []

/-- Adds a host function under its label. -/
def addFunction (w : World) (f : String × List Action) : World :=
  match w.addFunction (.scripted f.1 (.ofActions · f.2)) with
  | (v, w) => w.setLabel f.1 v

/-- The world of a bridge scenario before there is an interpreter: the host with
its globals, the library and the functions. -/
def hostWorld (functions : List (String × List Action)) : World :=
  let w : World := {}
  match w.addTable .empty with
  | (globals, w) =>
    match World.openLibrary { w with host := { w.host with globals } } with
    | (library, w) =>
      let w := { w with bench := { w.bench with library := (tableId? library).getD 0 } }
      functions.foldl addFunction (w.setLabel "ltcl" library)

/-- The settings argument of the call that makes the first interpreter. -/
def settingsArgs (settings : Option String) : List HostValue :=
  (settings.map HostValue.ofText).toList

/-- A bridge scenario: the reports on its steps, or the message why there is no
first interpreter. -/
def runBridge (settings : Option String) (functions : List (String × List Action))
    (steps : List BridgeStep) : Except Failure (List Report) :=
  let w := hostWorld functions
  let make := (w.heap.table w.bench.library).field "new"
  match outcome budget (.host make (settingsArgs settings)) w with
  | none => .error (.noInterpreter ⟨"out of steps"⟩)
  | some (.overflow cause) => .error (.overflow cause)
  | some (.reply (.error e) _) => .error (.noInterpreter ⟨Outcome.cut e.message⟩)
  | some (.reply (.ok vs) w) => runBridgeSteps (w.setLabel "i" (vs.headD .nil)) steps

end Scenario
end CommandBridge
