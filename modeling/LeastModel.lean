import LeastModel.Answer.Report
import LeastModel.Answer.Table
import LeastModel.Codec.Varint
import LeastModel.Command.Flag
import LeastModel.Command.Place
import LeastModel.Command.Run
import LeastModel.Command.Task
import LeastModel.Command.World
import LeastModel.Config.Comment
import LeastModel.Config.Cursor
import LeastModel.Config.Date
import LeastModel.Config.Document
import LeastModel.Config.Encoding
import LeastModel.Config.Fault
import LeastModel.Config.Layout
import LeastModel.Config.Literal
import LeastModel.Config.Node
import LeastModel.Config.Problem
import LeastModel.Config.Property
import LeastModel.Config.Reading
import LeastModel.Config.Scalar
import LeastModel.Config.Settings
import LeastModel.Config.Token
import LeastModel.Config.Value
import LeastModel.Database.Basic
import LeastModel.Database.Instances
import LeastModel.Evaluation.Fixpoint
import LeastModel.Evaluation.Options
import LeastModel.Evaluation.Run
import LeastModel.Evaluation.Step
import LeastModel.Evaluation.Validation
import LeastModel.Event.Basic
import LeastModel.Event.Infos
import LeastModel.Event.Milestone
import LeastModel.Event.Rendering
import LeastModel.Fault
import LeastModel.Main
import LeastModel.Number.Binary
import LeastModel.Number.Grouped
import LeastModel.Number.Numeral
import LeastModel.Number.Shortest
import LeastModel.Number.Total
import LeastModel.Plan.Graph
import LeastModel.Plan.Groups
import LeastModel.Plan.Search
import LeastModel.Program.Basic
import LeastModel.Program.Parser
import LeastModel.Proofs.Acceptance
import LeastModel.Proofs.AtomInstances
import LeastModel.Proofs.AtomPlaces
import LeastModel.Proofs.AutomatonStates
import LeastModel.Proofs.Capacity
import LeastModel.Proofs.Codec
import LeastModel.Proofs.Components
import LeastModel.Proofs.Consequence
import LeastModel.Proofs.Database
import LeastModel.Proofs.DatabaseRequests
import LeastModel.Proofs.Decoding
import LeastModel.Proofs.Delimiting
import LeastModel.Proofs.DependencyOrder
import LeastModel.Proofs.Filler
import LeastModel.Proofs.FirstOccurrences
import LeastModel.Proofs.Gains
import LeastModel.Proofs.Grammar
import LeastModel.Proofs.GroupLogs
import LeastModel.Proofs.ImmediateConsequence
import LeastModel.Proofs.JoinAlgebra
import LeastModel.Proofs.Lexing
import LeastModel.Proofs.LongestMatch
import LeastModel.Proofs.MinimalModel
import LeastModel.Proofs.Monotonicity
import LeastModel.Proofs.NaturalJoin
import LeastModel.Proofs.NestedLoop
import LeastModel.Proofs.PassCounts
import LeastModel.Proofs.PassLimit
import LeastModel.Proofs.Passes
import LeastModel.Proofs.Queries
import LeastModel.Proofs.RefusedWrites
import LeastModel.Proofs.Relation
import LeastModel.Proofs.RepeatedCalls
import LeastModel.Proofs.ReportReading
import LeastModel.Proofs.Reports
import LeastModel.Proofs.Representation
import LeastModel.Proofs.RuleChecks
import LeastModel.Proofs.RuleFaults
import LeastModel.Proofs.RunLogs
import LeastModel.Proofs.RuneBoundaries
import LeastModel.Proofs.Saturation
import LeastModel.Proofs.SourceText
import LeastModel.Proofs.StorableAnswers
import LeastModel.Proofs.StoreEntries
import LeastModel.Proofs.StoreKeys
import LeastModel.Proofs.StoreRoundTrip
import LeastModel.Proofs.StoreScans
import LeastModel.Proofs.StoredReport
import LeastModel.Proofs.SyntaxErrors
import LeastModel.Proofs.Tallies
import LeastModel.Proofs.Telling
import LeastModel.Proofs.TokenForms
import LeastModel.Proofs.TokenPlaces
import LeastModel.Proofs.Traversal
import LeastModel.Proofs.TupleSet
import LeastModel.Proofs.Unobserved
import LeastModel.Proofs.WorldPaths
import LeastModel.Proofs.WorldRuns
import LeastModel.Relation.Algebra
import LeastModel.Relation.Basic
import LeastModel.Relation.Digest
import LeastModel.Relation.Join
import LeastModel.Relation.Tuple
import LeastModel.Relation.TupleSet
import LeastModel.Store.Basic
import LeastModel.Store.Fault
import LeastModel.Store.Key
import LeastModel.Store.Record
import LeastModel.Text.Base64
import LeastModel.Text.Blank
import LeastModel.Text.Cluster
import LeastModel.Text.Colour
import LeastModel.Text.Digit
import LeastModel.Text.Letter
import LeastModel.Text.Printable
import LeastModel.Text.Quoted
import LeastModel.Text.Ranges
import LeastModel.Text.Utf8
import LeastModel.Text.Width
import LeastModel.Token.Basic
import LeastModel.Token.Lexer
import LeastModel.Proofs.Transposition
import LeastModel.Proofs.DepthFirst
import LeastModel.Proofs.ConfigKeys
import LeastModel.Proofs.Decolouring
import LeastModel.Proofs.GivenFlags
import LeastModel.Proofs.Precedence
