import FrameScript.Main
import FrameScript.Output.Handles
import FrameScript.Program.Editing
import FrameScript.Proofs.Compiler.Emission
import FrameScript.Proofs.Compiler.Places
import FrameScript.Proofs.Compiler.Breaks
import FrameScript.Proofs.Budgets
import FrameScript.Proofs.Machine.Runs
import FrameScript.Proofs.Machine.Heights
import FrameScript.Proofs.Machine.Fits
import FrameScript.Proofs.Machine.Instructions
import FrameScript.Proofs.Machine.Safety
import FrameScript.Proofs.Interpreter
import FrameScript.Proofs.Compiler.Tidy
import FrameScript.Proofs.Compiler.Violations
import FrameScript.Proofs.Compiler.Origins
import FrameScript.Proofs.Compiler.Resolution
import FrameScript.Proofs.Compiler.Shape
import FrameScript.Proofs.Simulation.Expressions
import FrameScript.Proofs.Simulation.Statements
import FrameScript.Proofs.Simulation.Runs
import FrameScript.Proofs.Decimal.Packing
import FrameScript.Proofs.Decimal.Rounding
import FrameScript.Proofs.Decimal.Spans
import FrameScript.Proofs.Decimal.Shortest
import FrameScript.Proofs.Decimal.Literals
import FrameScript.Proofs.Syntax.Canonical
import FrameScript.Proofs.Syntax.Grammar
import FrameScript.Proofs.Syntax.Acceptance
import FrameScript.Proofs.Syntax.Lexing
import FrameScript.Proofs.Syntax.Printing
import FrameScript.Proofs.Syntax.Signs
import FrameScript.Proofs.Syntax.Loading
import FrameScript.Proofs.Syntax.RoundTrip
import FrameScript.Proofs.Syntax.Layers
import FrameScript.Proofs.Syntax.Parsing
import FrameScript.Proofs.Syntax.Nesting
import FrameScript.Proofs.Syntax.Scanning
import FrameScript.Proofs.Syntax.ArgumentSplitting
import FrameScript.Proofs.Syntax.Spacing
import FrameScript.Proofs.Syntax.BreakingOff
import FrameScript.Proofs.Syntax.Blocks
import FrameScript.Proofs.Syntax.Outline
import FrameScript.Proofs.Compiler.Deletion
import FrameScript.Proofs.Compiler.Uninterrupted
import FrameScript.Proofs.Machine.Relocation
import FrameScript.Proofs.Machine.EarlierOutput
import FrameScript.Proofs.Machine.Protocol
import FrameScript.Proofs.Machine.Faults
import FrameScript.Proofs.Machine.Cooperation
import FrameScript.Proofs.Simulation.Uninterrupted
import FrameScript.Proofs.Simulation.Frames
import FrameScript.Proofs.Simulation.Partition
import FrameScript.Proofs.Decimal.Comparison
import FrameScript.Proofs.Machine.Drawing
import FrameScript.Proofs.Settings.Options
import FrameScript.Proofs.Settings.Precedence
import FrameScript.Proofs.Settings.Intervals
import FrameScript.Proofs.Runner.Reporting
import FrameScript.Proofs.Machine.CalledNames
import FrameScript.Proofs.Compiler.Initializers
import FrameScript.Proofs.Machine.Initialization
import FrameScript.Proofs.Output.Sharing
import FrameScript.Proofs.Compiler.Listing
