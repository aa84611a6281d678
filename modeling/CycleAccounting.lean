import CycleAccounting.Amount
import CycleAccounting.Attribution.Contention
import CycleAccounting.Attribution.CriticalPath
import CycleAccounting.Attribution.PerCycle
import CycleAccounting.Catalog
import CycleAccounting.Category
import CycleAccounting.CommandLine
import CycleAccounting.Counter.Role
import CycleAccounting.Counter.Tables
import CycleAccounting.Counter.Unit
import CycleAccounting.Decimal.Binary
import CycleAccounting.Decimal.Digits
import CycleAccounting.Decimal.Fixed
import CycleAccounting.Decimal.Gathered
import CycleAccounting.Decimal.Nearest
import CycleAccounting.Decimal.Shortest
import CycleAccounting.Decimal.Text
import CycleAccounting.Diagnostic
import CycleAccounting.Directory
import CycleAccounting.Document
import CycleAccounting.Double
import CycleAccounting.Json.Token
import CycleAccounting.Json.Value
import CycleAccounting.Ledger
import CycleAccounting.Main
import CycleAccounting.Options
import CycleAccounting.Options.Document
import CycleAccounting.Program
import CycleAccounting.Proofs.Acceptance
import CycleAccounting.Proofs.Agreement
import CycleAccounting.Proofs.Attribution
import CycleAccounting.Proofs.BuiltIn
import CycleAccounting.Proofs.Catalog
import CycleAccounting.Proofs.Contention
import CycleAccounting.Proofs.Counting
import CycleAccounting.Proofs.Definitions
import CycleAccounting.Proofs.Diagnostics
import CycleAccounting.Proofs.Directory
import CycleAccounting.Proofs.Exact
import CycleAccounting.Proofs.Fastforward
import CycleAccounting.Proofs.Grammar
import CycleAccounting.Proofs.Groups
import CycleAccounting.Proofs.Idempotence
import CycleAccounting.Proofs.Invocations
import CycleAccounting.Proofs.Isolation
import CycleAccounting.Proofs.Ledger
import CycleAccounting.Proofs.Lineage
import CycleAccounting.Proofs.Mean
import CycleAccounting.Proofs.Names
import CycleAccounting.Proofs.Offences
import CycleAccounting.Proofs.Order
import CycleAccounting.Proofs.Partition
import CycleAccounting.Proofs.Ranges
import CycleAccounting.Proofs.Readings
import CycleAccounting.Proofs.Reconciliation
import CycleAccounting.Proofs.Records
import CycleAccounting.Proofs.Refusal
import CycleAccounting.Proofs.Report
import CycleAccounting.Proofs.Reported
import CycleAccounting.Proofs.Requirement
import CycleAccounting.Proofs.Restriction
import CycleAccounting.Proofs.Scaling
import CycleAccounting.Proofs.Series
import CycleAccounting.Proofs.Simplification
import CycleAccounting.Proofs.Stack
import CycleAccounting.Proofs.Thresholds
import CycleAccounting.Proofs.TimeBasis
import CycleAccounting.Proofs.Units
import CycleAccounting.Proofs.Validity
import CycleAccounting.Proofs.Views
import CycleAccounting.Reconciliation
import CycleAccounting.Report.Basic
import CycleAccounting.Report.Csv
import CycleAccounting.Report.Text
import CycleAccounting.Run
import CycleAccounting.Run.Document
import CycleAccounting.Stack
import CycleAccounting.Text.Blank
import CycleAccounting.Text.Pieces
import CycleAccounting.TimeBasis
import CycleAccounting.Toml.Document
import CycleAccounting.Toml.Table
import CycleAccounting.Toml.Token
import CycleAccounting.Toml.Value
import CycleAccounting.Tree.BuiltIn
import CycleAccounting.Tree.Definition
import CycleAccounting.Tree.Groups
import CycleAccounting.Tree.Node
import CycleAccounting.View
