import CommandBatch.Extension.Identity
import CommandBatch.Main
import CommandBatch.Proofs.Line.Concatenation
import CommandBatch.Proofs.Line.Numbers
import CommandBatch.Proofs.Text.UpperCase
import CommandBatch.Proofs.Line.NormalForm
import CommandBatch.Proofs.Run.Ending
import CommandBatch.Proofs.Run.Batch
import CommandBatch.Proofs.Run.Frame
import CommandBatch.Proofs.Run.Lines
import CommandBatch.Proofs.Run.Containment
import CommandBatch.Proofs.Run.Unhooked
import CommandBatch.Proofs.Run.Failing
import CommandBatch.Proofs.Run.Trace
import CommandBatch.Proofs.Standard.Machine
import CommandBatch.Proofs.Standard.Atomicity
import CommandBatch.Proofs.Standard.Handlers
import CommandBatch.Proofs.Standard.Refinement
import CommandBatch.Proofs.Run.Requests
import CommandBatch.Proofs.Run.Blame
import CommandBatch.Proofs.Line.CommandWord
import CommandBatch.Proofs.Run.Naming
import CommandBatch.Proofs.Run.Sharing
import CommandBatch.Proofs.Tensor.Shape
import CommandBatch.Proofs.Token.Kinds
import CommandBatch.Proofs.Command.Binding
import CommandBatch.Proofs.Command.Typing
import CommandBatch.Proofs.Decimal.Binary
import CommandBatch.Proofs.Run.Lasting
import CommandBatch.Proofs.Standard.Requests
import CommandBatch.Proofs.Standard.Typing
import CommandBatch.Proofs.Run.Protocol
import CommandBatch.Proofs.Standard.Foreseen
import CommandBatch.Proofs.Run.Abreast
import CommandBatch.Proofs.Run.Independence
import CommandBatch.Proofs.Run.SingleLine
import CommandBatch.Proofs.Standard.Splitting
import CommandBatch.Proofs.Line.Respelling
import CommandBatch.Proofs.Standard.Spelling
import CommandBatch.Proofs.Text.Letters
import CommandBatch.Proofs.Registry.Types
import CommandBatch.Proofs.Line.Extension
import CommandBatch.Proofs.Line.Separators
import CommandBatch.Proofs.Line.Unreadable
import CommandBatch.Proofs.Report.Caret
import CommandBatch.Proofs.Line.Strings
import CommandBatch.Proofs.Line.Integers
import CommandBatch.Proofs.Standard.Integers
import CommandBatch.Proofs.Command.References
import CommandBatch.Proofs.Run.Pointing
import CommandBatch.Proofs.Files.Utf8
import CommandBatch.Proofs.Text.Lines
import CommandBatch.Proofs.Standard.Output
import CommandBatch.Proofs.Extension.Loading
import CommandBatch.Proofs.CommandLine.Program
import CommandBatch.Proofs.CommandLine.Endings
import CommandBatch.Proofs.Command.Declaring
import CommandBatch.Proofs.Run.Calling
import CommandBatch.Proofs.Tensor.Grammar
import CommandBatch.Proofs.Tensor.Brackets
import CommandBatch.Proofs.Standard.Forward
import CommandBatch.Proofs.Registry.StepRules
import CommandBatch.Proofs.Run.Rules
import CommandBatch.Proofs.Files.Path
import CommandBatch.Proofs.Extension.Bundled
import CommandBatch.Proofs.Extension.Pointer
import CommandBatch.Proofs.Trace.Kept
import CommandBatch.Proofs.Registry.HookOrder
import CommandBatch.Proofs.Run.Emission
import CommandBatch.Proofs.Environment.Names
import CommandBatch.Proofs.Report.Steps
