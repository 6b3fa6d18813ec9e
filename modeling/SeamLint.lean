import SeamLint.Code.Builder
import SeamLint.Code.Kind
import SeamLint.Code.Node
import SeamLint.Code.Tree
import SeamLint.Command.Arguments
import SeamLint.Command.Basic
import SeamLint.Command.Run
import SeamLint.Data.Access
import SeamLint.Data.Merge
import SeamLint.Data.Shown
import SeamLint.Data.Value
import SeamLint.Files.Disk
import SeamLint.Files.Path
import SeamLint.Finding.Basic
import SeamLint.Finding.Report
import SeamLint.Finding.Severity
import SeamLint.Json.Reader
import SeamLint.Json.Token
import SeamLint.Json.Writer
import SeamLint.Main
import SeamLint.Measure.Complexity
import SeamLint.Number.Binary
import SeamLint.Number.Decimal
import SeamLint.Number.Integer
import SeamLint.Number.Shortest
import SeamLint.Number.Written
import SeamLint.Output.Basic
import SeamLint.Output.Console
import SeamLint.Output.Document
import SeamLint.Output.Format
import SeamLint.Output.Grid
import SeamLint.Output.Markup
import SeamLint.Output.Plain
import SeamLint.Output.Sarif
import SeamLint.Rule.Basic
import SeamLint.Rule.Catalog
import SeamLint.Rule.Descriptor
import SeamLint.Rule.External
import SeamLint.Rule.Members
import SeamLint.Rule.Registry
import SeamLint.Rule.Shapes
import SeamLint.Rule.StaticAccess
import SeamLint.Rule.Wiring
import SeamLint.Scan.Config
import SeamLint.Scan.ConfigFile
import SeamLint.Scan.Engine
import SeamLint.Scan.Fault
import SeamLint.Scan.Snapshots
import SeamLint.Settings.Options
import SeamLint.Settings.Resolver
import SeamLint.Settings.RuleSettings
import SeamLint.Snapshot.Document
import SeamLint.Surroundings.Classify
import SeamLint.Surroundings.Tables
import SeamLint.Text.Basic
import SeamLint.Text.Blank
import SeamLint.Text.Digit
import SeamLint.Text.Pattern
import SeamLint.Text.Printable
import SeamLint.Text.Quoted
import SeamLint.Text.Utf8
import SeamLint.Yaml.Cursor
import SeamLint.Yaml.Reader
import SeamLint.Yaml.Scalar
import SeamLint.Proofs.FindingOrder
import SeamLint.Proofs.RuleIsolation
import SeamLint.Proofs.RuleOutput
import SeamLint.Proofs.ScanOrder
import SeamLint.Proofs.Preorder
import SeamLint.Proofs.SnapshotFields
import SeamLint.Proofs.GrownTree
import SeamLint.Proofs.SnapshotWalk
import SeamLint.Proofs.SnapshotGrammar
import SeamLint.Proofs.SnapshotTree
import SeamLint.Proofs.BuilderRuns
import SeamLint.Proofs.IntegerText
import SeamLint.Proofs.Resolution
import SeamLint.Proofs.ResolverInterleaving
import SeamLint.Proofs.WellFormedTree
import SeamLint.Proofs.TreeWalks
import SeamLint.Proofs.Ancestry
import SeamLint.Proofs.DecisionStack
import SeamLint.Proofs.DecisionPoints
import SeamLint.Proofs.PlaceTags
import SeamLint.Proofs.BuilderGrowth
import SeamLint.Proofs.CatalogTotality
import SeamLint.Proofs.FindingNumbers
import SeamLint.Proofs.Exclusions
import SeamLint.Proofs.OptionEntries
import SeamLint.Proofs.OptionLayers
import SeamLint.Proofs.WiderExclusions
import SeamLint.Proofs.SymbolLists
import SeamLint.Proofs.EnclosingNamespaces
import SeamLint.Proofs.ConfigShape
import SeamLint.Proofs.OptionValues
import SeamLint.Proofs.ExitCode
import SeamLint.Proofs.RuleListing
import SeamLint.Proofs.MarkupItems
import SeamLint.Proofs.MarkupText
import SeamLint.Proofs.DecimalText
import SeamLint.Proofs.BridgingTags
import SeamLint.Proofs.PrintedLines
import SeamLint.Proofs.VerbatimText
import SeamLint.Proofs.JsonScalars
import SeamLint.Proofs.JsonRoundTrip
import SeamLint.Proofs.ReportDocument
import SeamLint.Proofs.SarifLog
import SeamLint.Proofs.JsonFiles
import SeamLint.Proofs.SnapshotFiles
import SeamLint.Proofs.FilePatterns
import SeamLint.Proofs.LayeredOptions
import SeamLint.Proofs.ThresholdText
import SeamLint.Proofs.RaisedThresholds
import SeamLint.Proofs.ParentLinks
import SeamLint.Proofs.PathOverrides
