import Blockwork.Analysis.Compose
import Blockwork.Analysis.Point
import Blockwork.Block.Build
import Blockwork.Block.Dump
import Blockwork.Block.Graph
import Blockwork.Block.Kind
import Blockwork.Block.Scope
import Blockwork.Block.Tree
import Blockwork.Command.Emit
import Blockwork.Command.Host
import Blockwork.Command.Inspect
import Blockwork.Command.Options
import Blockwork.Command.Run
import Blockwork.Constraint.Equality
import Blockwork.Constraint.Expr
import Blockwork.Constraint.Fold
import Blockwork.Constraint.Ground
import Blockwork.Constraint.Reduce
import Blockwork.Constraint.Set
import Blockwork.Constraint.Solve
import Blockwork.Constraint.Text
import Blockwork.Diagnostics
import Blockwork.Document.Fault
import Blockwork.Document.Format
import Blockwork.Document.Load
import Blockwork.Document.Outline
import Blockwork.Failure
import Blockwork.Files.Path
import Blockwork.Files.Tree
import Blockwork.Guard.Prover
import Blockwork.Guard.Report
import Blockwork.Guard.Site
import Blockwork.Lint
import Blockwork.Log.Layout
import Blockwork.Log.Record
import Blockwork.Main
import Blockwork.Markup.Cursor
import Blockwork.Markup.Node
import Blockwork.Markup.Property
import Blockwork.Markup.ScalarText
import Blockwork.Markup.Token
import Blockwork.Markup.TokenStream
import Blockwork.Markup.Tree
import Blockwork.Markup.Value
import Blockwork.Number.Basic
import Blockwork.Number.Digits
import Blockwork.Number.Layout
import Blockwork.Program.Compile
import Blockwork.Program.Draft
import Blockwork.Program.Fault
import Blockwork.Program.Fragment
import Blockwork.Program.Library
import Blockwork.Program.Output
import Blockwork.Program.Precedence
import Blockwork.Program.Source
import Blockwork.Text.Base64
import Blockwork.Text.Blank
import Blockwork.Text.Case
import Blockwork.Text.Numeral
import Blockwork.Text.Printable
import Blockwork.Text.Quoted
import Blockwork.ValueType.Basic
import Blockwork.ValueType.Spec
import Blockwork.ValueType.Table
import Blockwork.Proofs.Quantity
import Blockwork.Proofs.Rounding
import Blockwork.Proofs.SetMeaning
import Blockwork.Proofs.Reduction
import Blockwork.Proofs.ReductionExact
import Blockwork.Proofs.Evaluation
import Blockwork.Proofs.SolverSound
import Blockwork.Proofs.Links
import Blockwork.Proofs.Loading
import Blockwork.Proofs.AnalysisSound
import Blockwork.Proofs.Drafting
import Blockwork.Proofs.GuardRemoval
import Blockwork.Proofs.Grammar
import Blockwork.Proofs.Lexing
import Blockwork.Proofs.Expressions
import Blockwork.Proofs.Blueprint
import Blockwork.Proofs.Reading
import Blockwork.Proofs.ReadingChains
import Blockwork.Proofs.ReadingPrograms
import Blockwork.Proofs.ReadTrees
import Blockwork.Proofs.GuardedOperations
import Blockwork.Proofs.GuardCoverage
import Blockwork.Proofs.Settled
import Blockwork.Proofs.GuardSound
import Blockwork.Proofs.Forest
import Blockwork.Proofs.Resizing
import Blockwork.Proofs.RangeChecks
import Blockwork.Proofs.Scoping
import Blockwork.Proofs.References
import Blockwork.Proofs.NumberTexts
import Blockwork.Proofs.Positions
import Blockwork.Proofs.ScalarTexts
import Blockwork.Proofs.Rereading
import Blockwork.Proofs.RereadingChains
import Blockwork.Proofs.RoundTrip
import Blockwork.Proofs.RoundedSums
import Blockwork.Proofs.MixedWidths
import Blockwork.Proofs.LiteralSlots
import Blockwork.Proofs.SingleVariable
import Blockwork.Proofs.FixedPoints
import Blockwork.Proofs.NegationForm
import Blockwork.Proofs.KeyOrder
import Blockwork.Proofs.SurvivingFacts
import Blockwork.Proofs.StoredLiterals
import Blockwork.Proofs.StringLiterals
import Blockwork.Proofs.FunctionNames
import Blockwork.Proofs.LintCoverage
import Blockwork.Proofs.InterruptRuns
import Blockwork.Proofs.HandlerCounts
import Blockwork.Proofs.CanonicalArrays
import Blockwork.Proofs.TypeNames
import Blockwork.Proofs.FaultPlaces
import Blockwork.Proofs.StructuralEquality
import Blockwork.Proofs.NormalForms
