import Segmentation.Main
import Segmentation.Settings
import Segmentation.Proofs.Binary64.Exact
import Segmentation.Proofs.Verdict.Agreement
import Segmentation.Proofs.Decimal.Nearest
import Segmentation.Proofs.Json.Literal
import Segmentation.Proofs.Numeral.Grammar
import Segmentation.Proofs.Numeral.Literal
import Segmentation.Proofs.Decimal.Layout
import Segmentation.Proofs.Json.Scaling
import Segmentation.Proofs.Json.LiteralValue
import Segmentation.Proofs.Json.Extension
import Segmentation.Proofs.Json.Document
import Segmentation.Proofs.Numeral.RoundTrip
import Segmentation.Proofs.Filter.Stored
import Segmentation.Proofs.Evaluation.OwnScalar
import Segmentation.Proofs.Evaluation.OwnLiteral
import Segmentation.Proofs.Binary64.Drift
import Segmentation.Proofs.Json.LiteralDrift
import Segmentation.Proofs.Json.Quoted
import Segmentation.Proofs.Json.Reread
import Segmentation.Proofs.Json.Written
import Segmentation.Proofs.Members
import Segmentation.Proofs.Value.Reread
import Segmentation.Proofs.Event.RoundTrip
import Segmentation.Proofs.Value.Nulls
import Segmentation.Proofs.Evaluation.Nulls
import Segmentation.Proofs.Filter.Written
import Segmentation.Proofs.Json.Nesting
import Segmentation.Proofs.Json.Taking
import Segmentation.Proofs.Json.Items
import Segmentation.Proofs.Event.Body
import Segmentation.Proofs.EventFile.Lines
import Segmentation.Proofs.EventFile.Encodings
import Segmentation.Proofs.Report.Members
import Segmentation.Proofs.Command.Membership
import Segmentation.Proofs.Numeral.Integer
import Segmentation.Proofs.Evaluation.Operands
import Segmentation.Proofs.Evaluation.Resolution
import Segmentation.Proofs.Evaluation.Conjunction
import Segmentation.Proofs.Evaluation.Insertion
import Segmentation.Proofs.Event.Readers
import Segmentation.Proofs.Command.Conduct
import Segmentation.Proofs.Configuration.Check
import Segmentation.Proofs.Configuration.Plain
import Segmentation.Proofs.EventFile.Contents
import Segmentation.Proofs.Command.Failing
import Segmentation.Proofs.Numeral.Acceptance
import Segmentation.Proofs.Decimal.Magnitude
import Segmentation.Proofs.Numeral.Printed
import Segmentation.Proofs.Evaluation.Warnings
import Segmentation.Proofs.Command.LogOptions
import Segmentation.Proofs.Command.Verbosity
import Segmentation.Proofs.Event.Paths
import Segmentation.Proofs.Evaluation.Algebra
import Segmentation.Proofs.Event.Conversion
import Segmentation.Proofs.Binary64.Powers
import Segmentation.Proofs.Numeral.Radix
import Segmentation.Proofs.Numeral.WideGrammar
import Segmentation.Proofs.Value.Joined
import Segmentation.Proofs.Evaluation.Items
import Segmentation.Proofs.Evaluation.Missing
import Segmentation.Proofs.Verdict.Reasons
import Segmentation.Proofs.EventFile.Refusals
import Segmentation.Proofs.Command.Configured
import Segmentation.Proofs.Json.Indented
import Segmentation.Proofs.Report.Reread
import Segmentation.Proofs.Report.Share
import Segmentation.Proofs.Report.Columns
