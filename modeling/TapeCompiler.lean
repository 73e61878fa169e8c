import TapeCompiler.CommandLine.Failure
import TapeCompiler.CommandLine.Files
import TapeCompiler.CommandLine.Options
import TapeCompiler.CommandLine.Run
import TapeCompiler.Compile
import TapeCompiler.Decimal.Shortest
import TapeCompiler.Emit.Body
import TapeCompiler.Emit.Module
import TapeCompiler.Emit.Stats
import TapeCompiler.Error
import TapeCompiler.Event
import TapeCompiler.Execute
import TapeCompiler.Json.Error
import TapeCompiler.Json.Forms
import TapeCompiler.Json.Number
import TapeCompiler.Json.Record
import TapeCompiler.Json.Text
import TapeCompiler.Json.Value
import TapeCompiler.Machine.Interpret
import TapeCompiler.Machine.Run
import TapeCompiler.Machine.State
import TapeCompiler.Main
import TapeCompiler.Optimize.Coalescing
import TapeCompiler.Optimize.Contraction
import TapeCompiler.Optimize.CountedLoop
import TapeCompiler.Optimize.Pass
import TapeCompiler.Program.Basic
import TapeCompiler.Program.Binary
import TapeCompiler.Program.Defect
import TapeCompiler.Program.Listing
import TapeCompiler.Program.Op
import TapeCompiler.Proofs.Emit.Addressing
import TapeCompiler.Proofs.Emit.Bookkeeping
import TapeCompiler.Proofs.Emit.Encoding
import TapeCompiler.Proofs.Emit.Loading
import TapeCompiler.Proofs.Emit.Operations
import TapeCompiler.Proofs.Emit.Refinement
import TapeCompiler.Proofs.Emit.Validity
import TapeCompiler.Proofs.Machine.Ending
import TapeCompiler.Proofs.Machine.Input
import TapeCompiler.Proofs.Machine.Limits
import TapeCompiler.Proofs.Machine.LockStep
import TapeCompiler.Proofs.Machine.Rotation
import TapeCompiler.Proofs.Machine.Safety
import TapeCompiler.Proofs.Machine.Tape
import TapeCompiler.Proofs.Optimize.Coalescing
import TapeCompiler.Proofs.Optimize.Contraction
import TapeCompiler.Proofs.Optimize.Cost
import TapeCompiler.Proofs.Optimize.Countdown
import TapeCompiler.Proofs.Optimize.CountedLoop
import TapeCompiler.Proofs.Optimize.Defects
import TapeCompiler.Proofs.Optimize.Equivalence
import TapeCompiler.Proofs.Optimize.Independence
import TapeCompiler.Proofs.Optimize.Maximality
import TapeCompiler.Proofs.Optimize.NormalForm
import TapeCompiler.Proofs.Optimize.Passes
import TapeCompiler.Proofs.Optimize.Reach
import TapeCompiler.Proofs.Optimize.Recognition
import TapeCompiler.Proofs.Optimize.Rewriting
import TapeCompiler.Proofs.Optimize.Settling
import TapeCompiler.Proofs.Optimize.Size
import TapeCompiler.Proofs.Program.Binary
import TapeCompiler.Proofs.Program.Blocks
import TapeCompiler.Proofs.Program.Defects
import TapeCompiler.Proofs.Program.FirstDefect
import TapeCompiler.Proofs.Program.Listing
import TapeCompiler.Proofs.Program.Paths
import TapeCompiler.Proofs.Program.Truncation
import TapeCompiler.Proofs.Source.Brackets
import TapeCompiler.Proofs.Source.Nesting
import TapeCompiler.Proofs.Source.Reprinting
import TapeCompiler.Proofs.Source.Scanning
import TapeCompiler.Proofs.Source.Spelling
import TapeCompiler.Proofs.Source.TextMachine
import TapeCompiler.Proofs.Source.Tokens
import TapeCompiler.Proofs.Wasm.Leb128
import TapeCompiler.Proofs.Wasm.Metering
import TapeCompiler.Proofs.Wasm.Reading
import TapeCompiler.Proofs.Wasm.RoundTrip
import TapeCompiler.Proofs.Wasm.Running
import TapeCompiler.Proofs.Wasm.Typing
import TapeCompiler.Proofs.Word
import TapeCompiler.Report
import TapeCompiler.Settings.Basic
import TapeCompiler.Settings.Json
import TapeCompiler.Source.Command
import TapeCompiler.Source.Parser
import TapeCompiler.Source.Position
import TapeCompiler.Source.Tree
import TapeCompiler.Text.Hidden
import TapeCompiler.Text.Quoted
import TapeCompiler.Text.Utf8
import TapeCompiler.Wasm.Accept
import TapeCompiler.Wasm.Code
import TapeCompiler.Wasm.Decode
import TapeCompiler.Wasm.Encode
import TapeCompiler.Wasm.Leb128
import TapeCompiler.Wasm.Machine
import TapeCompiler.Wasm.Module
import TapeCompiler.Wasm.Streams
import TapeCompiler.Wasm.Validate
import TapeCompiler.Word
