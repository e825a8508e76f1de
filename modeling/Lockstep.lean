import Lockstep.Batch.Basic
import Lockstep.Batch.Disk
import Lockstep.CommandLine.Arguments
import Lockstep.CommandLine.Run
import Lockstep.Config.Options
import Lockstep.Config.Settings
import Lockstep.Diagnostic.Basic
import Lockstep.Json.Printer
import Lockstep.Json.Reader
import Lockstep.Json.Record
import Lockstep.Json.Token
import Lockstep.Main
import Lockstep.Output.Writer
import Lockstep.Proofs.BatchOrder
import Lockstep.Proofs.Captures
import Lockstep.Proofs.CppLiterals
import Lockstep.Proofs.CppNumbers
import Lockstep.Proofs.CursorCourse
import Lockstep.Proofs.DistinctNames
import Lockstep.Proofs.EmittedFiles
import Lockstep.Proofs.FailingSink
import Lockstep.Proofs.ImportOrder
import Lockstep.Proofs.InStep
import Lockstep.Proofs.Indentation
import Lockstep.Proofs.InfixGrouping
import Lockstep.Proofs.KeptComments
import Lockstep.Proofs.Leftovers
import Lockstep.Proofs.LinePositions
import Lockstep.Proofs.LiteralValues
import Lockstep.Proofs.MeasuredTrees
import Lockstep.Proofs.MovedPlaces
import Lockstep.Proofs.OperandGrouping
import Lockstep.Proofs.OperatorSpacing
import Lockstep.Proofs.OptionLayers
import Lockstep.Proofs.RefusedNodes
import Lockstep.Proofs.ReplacedExtents
import Lockstep.Proofs.ReportedSpans
import Lockstep.Proofs.StatementJoints
import Lockstep.Proofs.Supported
import Lockstep.Proofs.SwiftDeclarations
import Lockstep.Proofs.Templates
import Lockstep.Proofs.TreeText
import Lockstep.Proofs.TriviaScan
import Lockstep.Proofs.Unchanged
import Lockstep.Proofs.WordSearch
import Lockstep.Proofs.WrittenNames
import Lockstep.Proofs.WrittenPieces
import Lockstep.Render.Context
import Lockstep.Render.Decl
import Lockstep.Render.Node
import Lockstep.Render.Step
import Lockstep.Source.Cursor
import Lockstep.Target.Basic
import Lockstep.Target.Modifiers
import Lockstep.Target.NumberLiteral
import Lockstep.Target.Operators
import Lockstep.Target.Profile
import Lockstep.Target.Reserved
import Lockstep.Target.TextLiteral
import Lockstep.Target.Types
import Lockstep.Text.CharClass
import Lockstep.Text.Extent
import Lockstep.Text.Identifier
import Lockstep.Text.Line
import Lockstep.Text.Placeholder
import Lockstep.Text.Quoted
import Lockstep.Tree.Assembler
import Lockstep.Tree.Decl
import Lockstep.Tree.Keyword
import Lockstep.Tree.Kind
import Lockstep.Tree.Node
import Lockstep.Tree.Operator
import Lockstep.Tree.Printer
import Lockstep.Tree.Reader
