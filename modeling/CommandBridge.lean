import CommandBridge.Bridge.Arguments
import CommandBridge.Bridge.Basic
import CommandBridge.Bridge.Bundles
import CommandBridge.Bridge.Callback
import CommandBridge.Bridge.Encodings
import CommandBridge.Bridge.Error
import CommandBridge.Bridge.Evaluation
import CommandBridge.Bridge.Handles
import CommandBridge.Bridge.Traces
import CommandBridge.Bridge.Variables
import CommandBridge.Builtin.Basic
import CommandBridge.Builtin.Control
import CommandBridge.Builtin.Lists
import CommandBridge.Builtin.Run
import CommandBridge.Builtin.Texts
import CommandBridge.Builtin.Variables
import CommandBridge.Bytes.Encoding
import CommandBridge.Bytes.Utf16
import CommandBridge.Bytes.Utf8
import CommandBridge.Flags
import CommandBridge.Host.Behaviour
import CommandBridge.Host.Heap
import CommandBridge.Host.Indexed
import CommandBridge.Host.Show
import CommandBridge.Host.Table
import CommandBridge.Host.Value
import CommandBridge.Host.View
import CommandBridge.Interpreter.Access
import CommandBridge.Interpreter.Evaluate
import CommandBridge.Interpreter.Lifetime
import CommandBridge.Interpreter.State
import CommandBridge.Interpreter.Variables
import CommandBridge.Library.Arguments
import CommandBridge.Library.Perform
import CommandBridge.Library.Request
import CommandBridge.Log.Settings
import CommandBridge.Marshal.Convert
import CommandBridge.Marshal.Visited
import CommandBridge.Number.Binary64
import CommandBridge.Number.Decimal
import CommandBridge.Number.Integer
import CommandBridge.Number.Shortest
import CommandBridge.Proofs.Bridge.Conversions
import CommandBridge.Proofs.Bridge.FunctionTable
import CommandBridge.Proofs.Bridge.Passage
import CommandBridge.Proofs.Bridge.Persistence
import CommandBridge.Proofs.Bridge.Refusal
import CommandBridge.Proofs.Bridge.Registration
import CommandBridge.Proofs.Bridge.Removal
import CommandBridge.Proofs.Bridge.Restoration
import CommandBridge.Proofs.Bridge.ResultRegister
import CommandBridge.Proofs.Bridge.Silence
import CommandBridge.Proofs.Bridge.TableArguments
import CommandBridge.Proofs.Bridge.Tracing
import CommandBridge.Proofs.Bridge.Unsetting
import CommandBridge.Proofs.Bridge.Untracing
import CommandBridge.Proofs.Bytes.Bounded
import CommandBridge.Proofs.Bytes.Codecs
import CommandBridge.Proofs.Bytes.Decoding
import CommandBridge.Proofs.Bytes.Encoding
import CommandBridge.Proofs.Bytes.Positions
import CommandBridge.Proofs.Bytes.Repair
import CommandBridge.Proofs.Host.Equality
import CommandBridge.Proofs.Host.Graph
import CommandBridge.Proofs.Host.Indexing
import CommandBridge.Proofs.Host.Mapping
import CommandBridge.Proofs.Host.Obstacles
import CommandBridge.Proofs.Host.Ordering
import CommandBridge.Proofs.Host.Regions
import CommandBridge.Proofs.Host.Tables
import CommandBridge.Proofs.Interpreter.ArrayCopying
import CommandBridge.Proofs.Interpreter.Balance
import CommandBridge.Proofs.Interpreter.Bare
import CommandBridge.Proofs.Interpreter.Coarse
import CommandBridge.Proofs.Interpreter.Composition
import CommandBridge.Proofs.Interpreter.Conduct
import CommandBridge.Proofs.Interpreter.Deletion
import CommandBridge.Proofs.Interpreter.Disposal
import CommandBridge.Proofs.Interpreter.Frame
import CommandBridge.Proofs.Interpreter.ListAppending
import CommandBridge.Proofs.Interpreter.ListEvaluation
import CommandBridge.Proofs.Interpreter.ListIndexing
import CommandBridge.Proofs.Interpreter.Stock
import CommandBridge.Proofs.Interpreter.Termination
import CommandBridge.Proofs.Interpreter.TraceTable
import CommandBridge.Proofs.Interpreter.Uses
import CommandBridge.Proofs.Interpreter.VariableTable
import CommandBridge.Proofs.Interpreter.Watchful
import CommandBridge.Proofs.Marshal.Classification
import CommandBridge.Proofs.Marshal.Conversion
import CommandBridge.Proofs.Marshal.Returned
import CommandBridge.Proofs.Marshal.RoundTrip
import CommandBridge.Proofs.Marshal.Traversal
import CommandBridge.Proofs.Number.Integral
import CommandBridge.Proofs.Number.Literal
import CommandBridge.Proofs.Run.CallLog
import CommandBridge.Proofs.Run.Contract
import CommandBridge.Proofs.Run.Execution
import CommandBridge.Proofs.Run.Monitor
import CommandBridge.Proofs.Run.Nesting
import CommandBridge.Proofs.Scenario.Conduct
import CommandBridge.Proofs.Script.Continuation
import CommandBridge.Proofs.Script.Interleaved
import CommandBridge.Proofs.Script.ListReading
import CommandBridge.Proofs.Script.OnePass
import CommandBridge.Proofs.Script.Plain
import CommandBridge.Proofs.Script.Positions
import CommandBridge.Proofs.Script.Reading
import CommandBridge.Proofs.Script.Rounds
import CommandBridge.Proofs.Text.Glob
import CommandBridge.Proofs.Value.Answers
import CommandBridge.Proofs.Value.IntegerSyntax
import CommandBridge.Proofs.Value.ListText
import CommandBridge.Proofs.Value.Overflow
import CommandBridge.Proofs.Word.Appending
import CommandBridge.Proofs.Word.Concatenation
import CommandBridge.Proofs.Word.Extension
import CommandBridge.Proofs.Word.Positions
import CommandBridge.Proofs.Word.Quoting
import CommandBridge.Proofs.Word.Splitting
import CommandBridge.Run.Machine
import CommandBridge.Run.Program
import CommandBridge.Run.World
import CommandBridge.Scenario.Answer
import CommandBridge.Scenario.BridgeSteps
import CommandBridge.Scenario.Collection
import CommandBridge.Scenario.Dispatch
import CommandBridge.Scenario.InterpreterSteps
import CommandBridge.Scenario.Literals
import CommandBridge.Scenario.Probes
import CommandBridge.Scenario.Run
import CommandBridge.Scenario.Step
import CommandBridge.Script.Reader
import CommandBridge.Script.Tree
import CommandBridge.Settings.Basic
import CommandBridge.Settings.Text
import CommandBridge.Text.Blank
import CommandBridge.Text.Case
import CommandBridge.Text.CaseTable
import CommandBridge.Text.Glob
import CommandBridge.Text.Report
import CommandBridge.Text.Shown
import CommandBridge.Text.UnseenTable
import CommandBridge.Toml.Basic
import CommandBridge.Toml.Quoted
import CommandBridge.Toml.Reader
import CommandBridge.Toml.Scalar
import CommandBridge.Toml.Text
import CommandBridge.Value.Access
import CommandBridge.Value.Basic
import CommandBridge.Word.Brace
import CommandBridge.Word.Escape
import CommandBridge.Word.Quote
import CommandBridge.Word.Split
