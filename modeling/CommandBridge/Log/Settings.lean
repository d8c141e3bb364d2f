/-
# Settings of the log

The settings come from presets or from environment variables:

| variable | effect |
| --- | --- |
| `LTCL_LOG_LEVEL` | the level, in any case; an unknown word means `info` |
| `LTCL_LOG_FILE` | writes to this file as well |
| `LTCL_LOG_JSON`, `LTCL_LOG_SPANS` | switch their feature on, whatever the value |
| `LTCL_LOG_PERF` | whether performance is tracked: `1`, or `true` in any case |

Where neither says whether performance is tracked, that is left open.
-/

import CommandBridge.Text.Case

namespace CommandBridge

/-- How much is logged. -/
inductive LogLevel where
  | trace
  | debug
  | info
  | warn
  | error
deriving DecidableEq, Repr

namespace LogLevel

/-- The level that a word means. -/
def ofText (s : String) : LogLevel :=
  match Text.lower s with
  | "trace" => .trace
  | "debug" => .debug
  | "warn" => .warn
  | "error" => .error
  | _ => .info

/-- The name of a level. -/
def name : LogLevel → String
  | .trace => "TRACE"
  | .debug => "DEBUG"
  | .info => "INFO"
  | .warn => "WARN"
  | .error => "ERROR"

end LogLevel

/-- The settings of the log. -/
structure LogSettings where
  level : LogLevel := .info
  path : Option String := none
  json : Bool := false
  spans : Bool := false
  trackPerformance : Option Bool := none
deriving DecidableEq, Repr

namespace LogSettings

/-- Whether the log goes to a file. -/
def toFile (s : LogSettings) : Bool := s.path.isSome

/-- As little as possible. -/
def performance : LogSettings :=
  { level := .error, trackPerformance := some false }

/-- As much as possible. -/
def debug : LogSettings :=
  { level := .trace, path := some "ltcl.log", spans := true, trackPerformance := some true }

/-- Settings by their name. -/
def preset? (name : String) : Option LogSettings :=
  match name with
  | "default" => some {}
  | "performance" => some performance
  | "debug" => some debug
  | _ => none

/-- Settings from environment variables. -/
def ofEnvironment (get : String → Option String) : LogSettings :=
  { level := ((get "LTCL_LOG_LEVEL").map LogLevel.ofText).getD .info
    path := get "LTCL_LOG_FILE"
    json := (get "LTCL_LOG_JSON").isSome
    spans := (get "LTCL_LOG_SPANS").isSome
    trackPerformance := (get "LTCL_LOG_PERF").map fun s => s == "1" || Text.lower s == "true" }

end LogSettings
end CommandBridge
