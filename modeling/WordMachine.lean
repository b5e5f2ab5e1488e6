import WordMachine.Assembly.Comment
import WordMachine.Assembly.Source
import WordMachine.Assembly.Spelling
import WordMachine.Assembly.Token
import WordMachine.Code.Bytes
import WordMachine.Code.Instruction
import WordMachine.Code.Opcode
import WordMachine.Code.Operand
import WordMachine.Command.Arguments
import WordMachine.Command.Disk
import WordMachine.Command.Failure
import WordMachine.Command.FileTree
import WordMachine.Command.Path
import WordMachine.Command.Run
import WordMachine.Config
import WordMachine.Decimal.Binary64
import WordMachine.Decimal.Scientific
import WordMachine.Decimal.Shortest
import WordMachine.Document.Format
import WordMachine.Document.Json
import WordMachine.Document.Node
import WordMachine.Document.Read
import WordMachine.Document.Written
import WordMachine.Expression
import WordMachine.Host.Basic
import WordMachine.Host.Fixed
import WordMachine.Json.Content
import WordMachine.Json.Decode
import WordMachine.Json.Fault
import WordMachine.Json.Number
import WordMachine.Json.Reader
import WordMachine.Json.Tree
import WordMachine.Json.Writer
import WordMachine.Log.Event
import WordMachine.Log.Filter
import WordMachine.Machine.Fault
import WordMachine.Machine.Limits
import WordMachine.Machine.Run
import WordMachine.Machine.Stack
import WordMachine.Machine.Trace
import WordMachine.Main
import WordMachine.Proofs.Isolated
import WordMachine.Proofs.Loading
import WordMachine.Record
import WordMachine.Text.Blank
import WordMachine.Text.Hex
import WordMachine.Text.Line
import WordMachine.Text.Numeral
import WordMachine.Text.Printable
import WordMachine.Text.Quoted
import WordMachine.Text.Split
import WordMachine.Toml.Number
import WordMachine.Toml.Reader
import WordMachine.Toml.Table
import WordMachine.Toml.Text
import WordMachine.Word.Arithmetic
import WordMachine.Word.Basic
import WordMachine.Word.Function
import WordMachine.Word.Literal
import WordMachine.Yaml.Cursor
import WordMachine.Yaml.Reader
import WordMachine.Yaml.Scalar
import WordMachine.Proofs.Isolation
import WordMachine.Proofs.Safety
import WordMachine.Proofs.Simulation
import WordMachine.Proofs.Standalone
import WordMachine.Proofs.WithoutDebug
import WordMachine.Proofs.Moves
import WordMachine.Proofs.WithinLimits
import WordMachine.Proofs.Reading
import WordMachine.Proofs.Disassembly
import WordMachine.Proofs.Listing
import WordMachine.Proofs.FirstFault
import WordMachine.Proofs.SourceText
import WordMachine.Proofs.TextForms
import WordMachine.Proofs.JsonText
import WordMachine.Proofs.ConfigFile
import WordMachine.Proofs.Spellings
import WordMachine.Proofs.Grammar
import WordMachine.Proofs.Arity
import WordMachine.Proofs.Recursion
import WordMachine.Proofs.Reachable
import WordMachine.Proofs.Unfolding
import WordMachine.Machine.Watched
import WordMachine.Proofs.Sinks
import WordMachine.Proofs.Folds
import WordMachine.Proofs.Unrolling
import WordMachine.Proofs.WhileLoop
import WordMachine.Proofs.HexFormat
import WordMachine.Proofs.JoinedSources
import WordMachine.Proofs.NamedInstructions
import WordMachine.Proofs.Saturation
import WordMachine.Proofs.Literals
import WordMachine.Proofs.WrittenValues
import WordMachine.Proofs.TokenTable
import WordMachine.Proofs.RecordLines
import WordMachine.Proofs.HostDocuments
import WordMachine.Proofs.LastWrites
import WordMachine.Proofs.Listeners
