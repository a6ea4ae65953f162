import FlowScript.Analysis.Analyzer
import FlowScript.Main
import FlowScript.Proofs.Erasure.FixedPoint
import FlowScript.Proofs.Printer.Depth
import FlowScript.Proofs.Steps.Coverage
import FlowScript.Proofs.Actions.Groups
import FlowScript.Proofs.Actions.Partition
import FlowScript.Proofs.Printer.OneLine
import FlowScript.Proofs.Steps.Origin
import FlowScript.Proofs.Printer.Nested
import FlowScript.Proofs.Steps.Importance
import FlowScript.Proofs.Diagnostics.MissingParts
import FlowScript.Proofs.Json.Reading
import FlowScript.Proofs.Ast.Written
import FlowScript.Proofs.Ast.RoundTrip
import FlowScript.Proofs.Analysis.History
import FlowScript.Proofs.Erasure.Bounds
import FlowScript.Proofs.Erasure.Content
import FlowScript.Proofs.Erasure.Declarations
import FlowScript.Proofs.Erasure.Patches
import FlowScript.Proofs.Nesting.Sequence
import FlowScript.Proofs.Printer.Layout
import FlowScript.Proofs.Printer.Counters
import FlowScript.Proofs.Actions.Formation
import FlowScript.Proofs.Steps.Calls
import FlowScript.Proofs.Explain.Assignments
import FlowScript.Proofs.Diagnostics.DeadCode
import FlowScript.Proofs.Steps.Invariants
import FlowScript.Proofs.Steps.Outline
import FlowScript.Proofs.Explain.Coverage
import FlowScript.Proofs.Diagnostics.NestingDepth
import FlowScript.Proofs.Source.LineColumn
import FlowScript.Proofs.Text.Escape
import FlowScript.Proofs.Message.Substitution
import FlowScript.Proofs.Message.Flattening
import FlowScript.Proofs.Text.Tidy
import FlowScript.Proofs.Grammar.Descent
import FlowScript.Proofs.Steps.Ways
import FlowScript.Proofs.Text.Entity
