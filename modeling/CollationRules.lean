import CollationRules.Main
import CollationRules.Proofs.Collation.ExpansionMark
import CollationRules.Proofs.Collation.Insertion
import CollationRules.Proofs.Collation.Preservation
import CollationRules.Proofs.Collation.Resets
import CollationRules.Proofs.Rule.Quoting
import CollationRules.Proofs.Collation.Independence
import CollationRules.Proofs.Collation.RuleElements
import CollationRules.Proofs.Rule.Opening
import CollationRules.Proofs.Collation.FirstReset
import CollationRules.Proofs.Collation.SequenceForms
import CollationRules.Proofs.Collation.QuotedText
import CollationRules.Proofs.Rule.Spans
import CollationRules.Proofs.Rule.Scanning
import CollationRules.Proofs.Rule.Division
import CollationRules.Proofs.Rule.Locality
import CollationRules.Proofs.Rule.Faults
import CollationRules.Proofs.Collation.FailureSpans
import CollationRules.Proofs.Collation.Concatenation
import CollationRules.Proofs.Markup.Forking
import CollationRules.Proofs.Collation.Layouts
import CollationRules.Proofs.Collation.Enclosing
import CollationRules.Proofs.Collation.Rendering
import CollationRules.Proofs.Markup.OpenElements
import CollationRules.Proofs.Rule.Halting
import CollationRules.Proofs.Rule.Skipping
import CollationRules.Proofs.CommandLine.Runs
import CollationRules.Proofs.Rule.Calls
import CollationRules.Proofs.Collation.Progress
import CollationRules.Proofs.Collation.Outcome
import CollationRules.Proofs.Rule.Marks
import CollationRules.Proofs.Collation.ReservedMark
import CollationRules.Proofs.Collation.SettingGroups
import CollationRules.Proofs.Rule.ResetForms
import CollationRules.Proofs.Markup.Escaping
import CollationRules.Proofs.Collation.SettingValues
import CollationRules.Proofs.Markup.Indentation
import CollationRules.Proofs.Markup.Grammar
import CollationRules.Proofs.Markup.Sinks
import CollationRules.Proofs.Report.Positions
import CollationRules.Proofs.Rule.SpanMerging
import CollationRules.Proofs.Collation.Accumulation
import CollationRules.Proofs.Rule.ErrorContexts
import CollationRules.Proofs.Report.Squashing
