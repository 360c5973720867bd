import BacktestAudit.Log
import BacktestAudit.Main
import BacktestAudit.Proofs.CommandLine.ExitCodes
import BacktestAudit.Proofs.CommandLine.SecondPass
import BacktestAudit.Proofs.Decimal.Doubles
import BacktestAudit.Proofs.Fix.AtOnce
import BacktestAudit.Proofs.Fix.Disjoint
import BacktestAudit.Proofs.Fix.LineBreaks
import BacktestAudit.Proofs.Fix.OneBar
import BacktestAudit.Proofs.Fix.OnePass
import BacktestAudit.Proofs.Flow.ImportedNames
import BacktestAudit.Proofs.Flow.LastWrite
import BacktestAudit.Proofs.Flow.Outside
import BacktestAudit.Proofs.Flow.Links
import BacktestAudit.Proofs.Flow.Paths
import BacktestAudit.Proofs.Flow.ShiftBinding
import BacktestAudit.Proofs.Flow.ShiftChains
import BacktestAudit.Proofs.Flow.Spanning
import BacktestAudit.Proofs.Flow.Spelling
import BacktestAudit.Proofs.Rules.Batch
import BacktestAudit.Proofs.Rules.DynamicCalls
import BacktestAudit.Proofs.Rules.Independent
import BacktestAudit.Proofs.Rules.LaggedReports
import BacktestAudit.Proofs.Settings.Checked
import BacktestAudit.Proofs.Settings.Layering
import BacktestAudit.Proofs.Settings.Unloadable
import BacktestAudit.Proofs.Source.Lines
import BacktestAudit.Proofs.Statistics.Balanced
import BacktestAudit.Proofs.Statistics.Batched
import BacktestAudit.Proofs.Statistics.FieldChecks
import BacktestAudit.Proofs.Statistics.Gates
import BacktestAudit.Proofs.Statistics.Median
import BacktestAudit.Proofs.Statistics.Rearranged
import BacktestAudit.Proofs.Statistics.Reordered
import BacktestAudit.Proofs.Statistics.Threshold
import BacktestAudit.Proofs.Statistics.Usable
