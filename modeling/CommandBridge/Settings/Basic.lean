/-
# Settings

The settings of an interpreter handle and the rules they obey.
-/

namespace CommandBridge

/-- How many evaluations may nest by default. -/
def defaultMaxNesting : Nat := 1000

/-- The settings of an interpreter handle. -/
structure Settings where
  /-- The command by which scripts call host globals. -/
  adhocCommand : String := "lua"
  /-- A script to run when the interpreter is made. -/
  initScript : Option String := none
  systemEncoding : String := "utf-8"
  maxNesting : Nat := defaultMaxNesting
  /-- What is put before the names of options made of map keys. -/
  optionPrefix : String := "-"
deriving DecidableEq, Inhabited, Repr

/-- Why settings are not accepted. -/
inductive SettingsError where
  | unreadable (reason : String)
  /-- The text does not hold settings; the report says where. -/
  | malformed (report : String)
  | emptyAdhocCommand
  | zeroNesting
deriving DecidableEq, Repr

/-- The wording of the errors. -/
def SettingsError.message : SettingsError → String
  | .unreadable reason => "Failed to read config: " ++ reason
  | .malformed report => "Failed to parse config: " ++ report
  | .emptyAdhocCommand => "Invalid config: interp.adhoc_command must not be empty"
  | .zeroNesting => "Invalid config: interp.max_nesting must be positive"

namespace Settings

/-- The settings themselves if they obey the rules. -/
def validate (s : Settings) : Except SettingsError Settings :=
  if s.adhocCommand.isEmpty then .error .emptyAdhocCommand
  else if s.maxNesting = 0 then .error .zeroNesting
  else .ok s

theorem validate_default : validate {} = .ok {} := rfl

end Settings
end CommandBridge
