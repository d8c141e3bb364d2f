/-
# Errors at the boundary

An operation of the bridge fails with one of six kinds of error.  What cannot be
converted has causes of its own (`ConversionError`); an evaluation that failed
carries the text that the interpreter left.
-/

namespace CommandBridge

/-- Why host values cannot become interpreter values or command words. -/
inductive ConversionError where
  /-- A table lies on the way from itself to the value at hand. -/
  | recursiveTable
  /-- A value of this type has no counterpart. -/
  | noCounterpart (typeName : String)
  /-- The name of an option is a value of this type and no string. -/
  | optionName (typeName : String)
  /-- The bundle was torn down. -/
  | releasedBundle
deriving DecidableEq, Repr

/-- The wording of the errors. -/
def ConversionError.message : ConversionError → String
  | .recursiveTable => "can not convert recursive table to target value"
  | .noCounterpart typeName =>
    "can not convert host value of type '" ++ typeName ++ "' to target value"
  | .optionName typeName => "option name must be a string, got " ++ typeName
  | .releasedBundle => "attempt to use a released argument bundle"

/-- An error of a bridge operation. -/
inductive BridgeError where
  /-- A wrong argument at a position counted from one. -/
  | argument (function : String) (position : Nat) (message : String)
  | conversion (message : String)
  | eval (message : String)
  | encoding (message : String)
  | initialization (message : String)
  | internal (message : String)
deriving DecidableEq, Repr

/-- The error of a value that cannot be converted. -/
def ConversionError.toBridge (e : ConversionError) : BridgeError :=
  .conversion e.message

namespace BridgeError

/-- The name of the kind of an error. -/
def kindName : BridgeError → String
  | .argument .. => "ArgumentError"
  | .conversion _ => "ConversionError"
  | .eval _ => "EvalError"
  | .encoding _ => "EncodingError"
  | .initialization _ => "InitializationError"
  | .internal _ => "InternalError"

/-- The wording of an error. -/
def message : BridgeError → String
  | .argument function position message =>
    "bad argument #" ++ toString position ++ " to '" ++ function ++ "' (" ++ message ++ ")"
  | .conversion message => message
  | .eval message => message
  | .encoding message => message
  | .initialization message => "interpreter initialization failed: " ++ message
  | .internal message => "internal error: " ++ message

end BridgeError
end CommandBridge
