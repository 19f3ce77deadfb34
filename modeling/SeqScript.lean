import SeqScript.CommandLine.FileTree
import SeqScript.Main
import SeqScript.Model.Equivalence
import SeqScript.Proofs.Bulk.Interleaving
import SeqScript.Proofs.Bulk.Shares
import SeqScript.Proofs.Document.Accepted
import SeqScript.Proofs.Document.ArgumentGrammar
import SeqScript.Proofs.Document.ArgumentItems
import SeqScript.Proofs.Document.ArgumentOrder
import SeqScript.Proofs.Document.Composition
import SeqScript.Proofs.Document.Decoding
import SeqScript.Proofs.Document.Faults
import SeqScript.Proofs.Document.Injective
import SeqScript.Proofs.Document.Invariants
import SeqScript.Proofs.Document.Numbers
import SeqScript.Proofs.Document.PathText
import SeqScript.Proofs.Document.Places
import SeqScript.Proofs.Document.Records
import SeqScript.Proofs.Document.Regular
import SeqScript.Proofs.Document.RoundTrip
import SeqScript.Proofs.Document.Shadowing
import SeqScript.Proofs.Document.Sorted
import SeqScript.Proofs.Document.Stages
import SeqScript.Proofs.Document.TextRoundTrip
import SeqScript.Proofs.Json.NumberText
import SeqScript.Proofs.Json.Sorted
import SeqScript.Proofs.Json.TextRoundTrip
import SeqScript.Proofs.Json.Tree
import SeqScript.Proofs.Keyed
import SeqScript.Proofs.Model.ArgumentEquality
import SeqScript.Proofs.Model.Collections
import SeqScript.Proofs.Model.Numbers
import SeqScript.Proofs.Model.Setters
import SeqScript.Proofs.Model.WellFormed
import SeqScript.Proofs.Number.Numeral
import SeqScript.Proofs.Script.Alike
import SeqScript.Proofs.Script.Arguments
import SeqScript.Proofs.Script.Attachment
import SeqScript.Proofs.Script.Attributes
import SeqScript.Proofs.Script.CommentPlacement
import SeqScript.Proofs.Script.Comments
import SeqScript.Proofs.Script.Declarations
import SeqScript.Proofs.Script.Diagnostics
import SeqScript.Proofs.Script.Indented
import SeqScript.Proofs.Script.JsonLiterals
import SeqScript.Proofs.Script.Layout
import SeqScript.Proofs.Script.Levels
import SeqScript.Proofs.Script.Lines
import SeqScript.Proofs.Script.Literal
import SeqScript.Proofs.Script.LiteralArguments
import SeqScript.Proofs.Script.Modules
import SeqScript.Proofs.Script.Phrases
import SeqScript.Proofs.Script.Quotation
import SeqScript.Proofs.Script.Sequences
import SeqScript.Proofs.Script.Settled
import SeqScript.Proofs.Script.Source
import SeqScript.Proofs.Script.Steps
import SeqScript.Proofs.Script.Unique
import SeqScript.Proofs.Text.Digit
import SeqScript.Proofs.Text.Lines
import SeqScript.Proofs.Text.OneLine
import SeqScript.Proofs.Time.Calendar
import SeqScript.Proofs.Time.Date
import SeqScript.Proofs.Time.Injective
import SeqScript.Proofs.Time.Order
import SeqScript.Proofs.Time.OutOfRange
import SeqScript.Proofs.Time.ReadBack
import SeqScript.Proofs.Time.ReadDuration
import SeqScript.Proofs.Time.RoundTrip
import SeqScript.Proofs.Time.WrittenDuration
import SeqScript.Proofs.Time.WrittenInstant
import SeqScript.Proofs.Time.Years
import SeqScript.Proofs.CommandLine.FileTree
import SeqScript.Proofs.CommandLine.Run
