import RequireLint.Main
import RequireLint.Proofs.Policy.DecisionTable
import RequireLint.Proofs.Correction.SecondRound
import RequireLint.Source.Expr.Printer
import RequireLint.Trace.Filter
import RequireLint.Proofs.Policy.Rejudgement
import RequireLint.Proofs.Policy.Spelling
import RequireLint.Proofs.Rule.Distinct
import RequireLint.Proofs.Rule.Selection
import RequireLint.Proofs.Source.Commented
import RequireLint.Proofs.Rule.Commented
import RequireLint.Proofs.File.Place
import RequireLint.Proofs.File.Tree
import RequireLint.Proofs.Command.Written
import RequireLint.Proofs.Source.Returns
import RequireLint.Proofs.Source.ReturnLines
import RequireLint.Proofs.Path.Returns
import RequireLint.Proofs.Policy.Returns
import RequireLint.Proofs.Text.Shift
import RequireLint.Proofs.Rule.ReturnBlocks
import RequireLint.Proofs.Rule.Returns
import RequireLint.Proofs.Path.Order
import RequireLint.Proofs.Scan.Walk
import RequireLint.Proofs.Command.Collection
import RequireLint.Proofs.Toml.Quoted
import RequireLint.Proofs.Toml.Reader
import RequireLint.Proofs.Toml.Document
import RequireLint.Proofs.Config.Shown
import RequireLint.Proofs.Config.StateLines
import RequireLint.Proofs.Config.Validated
import RequireLint.Proofs.Source.ReadBack
import RequireLint.Proofs.Source.Grammar
import RequireLint.Proofs.Json.Reader
import RequireLint.Proofs.Report.Decoded
import RequireLint.Proofs.Report.Agreement
import RequireLint.Proofs.Rule.SingleCorrection
import RequireLint.Proofs.Correction.Replacements
import RequireLint.Proofs.Source.AppendedLines
import RequireLint.Proofs.Path.Cancellation
import RequireLint.Proofs.Path.Composition
import RequireLint.Proofs.Rule.LibraryCode
import RequireLint.Proofs.Rule.GitCommands
import RequireLint.Proofs.Rule.Blocks
