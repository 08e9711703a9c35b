import ByteCalc.Main
import ByteCalc.Proofs.Chunk.LineTable
import ByteCalc.Proofs.Compile.Acceptance
import ByteCalc.Proofs.Compile.Completeness
import ByteCalc.Proofs.Compile.Equations
import ByteCalc.Proofs.Compile.ErrorPlace
import ByteCalc.Proofs.Compile.Output
import ByteCalc.Proofs.Compile.Rejection
import ByteCalc.Proofs.Compile.Soundness
import ByteCalc.Proofs.Expression.Code
import ByteCalc.Proofs.Expression.Evaluation
import ByteCalc.Proofs.Expression.Grammar
import ByteCalc.Proofs.Expression.Place
import ByteCalc.Proofs.Expression.Unambiguous
import ByteCalc.Proofs.Interpretation
import ByteCalc.Proofs.Machine.Execution
import ByteCalc.Proofs.Machine.Simulation
import ByteCalc.Proofs.Token.Scans
import ByteCalc.Proofs.Text.Characters
import ByteCalc.Proofs.Chunk.RowText
import ByteCalc.Proofs.Machine.Decoding
import ByteCalc.Proofs.Chunk.Lines
import ByteCalc.Proofs.Chunk.Tiling
import ByteCalc.Proofs.Chunk.Constant
import ByteCalc.Proofs.Machine.Trail
import ByteCalc.Proofs.Machine.Trace
import ByteCalc.Proofs.Chunk.Canonical
import ByteCalc.Proofs.Expression.Slots
import ByteCalc.Proofs.Machine.Height
import ByteCalc.Proofs.StackBound
import ByteCalc.Proofs.Machine.History
import ByteCalc.Proofs.Machine.ErrorLine
import ByteCalc.Proofs.Machine.Stream
import ByteCalc.Proofs.Machine.Refinement
import ByteCalc.Proofs.Expression.Path
import ByteCalc.Proofs.NestingLimit
import ByteCalc.Proofs.Token.Filler
import ByteCalc.Proofs.Token.Munch
import ByteCalc.Proofs.Token.Spans
import ByteCalc.Proofs.Token.Inset
import ByteCalc.Proofs.Expression.Relined
import ByteCalc.Proofs.Compile.Relined
import ByteCalc.Proofs.Layout
import ByteCalc.Proofs.Token.Longest
import ByteCalc.Proofs.Token.LineCount
import ByteCalc.Proofs.Compile.Readback
import ByteCalc.Proofs.Chunk.Assembly
import ByteCalc.Proofs.Chunk.RoundTrip
import ByteCalc.Proofs.Token.LineBreak
import ByteCalc.Proofs.Number.Spelling
import ByteCalc.Proofs.Number.Shortest
import ByteCalc.Proofs.PrintedValue
import ByteCalc.Proofs.Machine.Lockstep
import ByteCalc.Proofs.Session
import ByteCalc.Proofs.Compile.Counted
import ByteCalc.Proofs.Machine.Frame
import ByteCalc.Proofs.Compile.LongestPhrase
