import ImportCycles.Lock
import ImportCycles.Main
import ImportCycles.Proofs.Graph.Cycle
import ImportCycles.Proofs.Sorted
import ImportCycles.Proofs.Walk.Move
import ImportCycles.Proofs.Walk.Bound
import ImportCycles.Proofs.Walk.Outcome
import ImportCycles.Proofs.Walk.Plain
import ImportCycles.Proofs.Audit.Findings
import ImportCycles.Proofs.Audit.Pool
import ImportCycles.Proofs.Audit.Serial
import ImportCycles.Proofs.Graph.History
import ImportCycles.Proofs.Audit.Complete
import ImportCycles.Proofs.Audit.Repeat
import ImportCycles.Proofs.Audit.Apart
import ImportCycles.Proofs.Graph.Guard
import ImportCycles.Proofs.Audit.Claims
import ImportCycles.Proofs.Graph.Log
import ImportCycles.Proofs.Build.Verdict
import ImportCycles.Proofs.CommandLine.Status
import ImportCycles.Proofs.Graph.Filling
import ImportCycles.Proofs.Audit.Cyclers
import ImportCycles.Proofs.Lock.Monitor
import ImportCycles.Proofs.Lock.Settled
import ImportCycles.Proofs.Disk.Follow
import ImportCycles.Proofs.Disk.Search
import ImportCycles.Proofs.Build.Edges
import ImportCycles.Proofs.Lock.Drain
import ImportCycles.Proofs.Disk.Change
import ImportCycles.Proofs.Report.Flowchart
import ImportCycles.Proofs.Report.Order
import ImportCycles.Proofs.CommandLine.Delivery
import ImportCycles.Proofs.Audit.Reproducible
import ImportCycles.Proofs.Report.Cycles
import ImportCycles.Proofs.Walk.FirstCycle
import ImportCycles.Proofs.Graph.Search
import ImportCycles.Proofs.Graph.Refusal
import ImportCycles.Proofs.Audit.Traces
import ImportCycles.Proofs.Disk.Fault
import ImportCycles.Proofs.Settings.Load
import ImportCycles.Proofs.Settings.Search
import ImportCycles.Proofs.Settings.Resolve
import ImportCycles.Proofs.Disk.Order
import ImportCycles.Proofs.Disk.Selection
import ImportCycles.Proofs.Build.Failures
import ImportCycles.Proofs.Route.Trim
import ImportCycles.Proofs.Intercalate
import ImportCycles.Proofs.Report.Identifier
import ImportCycles.Proofs.Report.Reading
import ImportCycles.Proofs.Report.Canonical
import ImportCycles.Proofs.Report.Sections
import ImportCycles.Proofs.Java.Source
import ImportCycles.Proofs.Java.Naming
import ImportCycles.Proofs.FirstKept.Additions
import ImportCycles.Proofs.Settings.Normal
import ImportCycles.Proofs.CommandLine.Limits
import ImportCycles.Proofs.Settings.SourceList
import ImportCycles.Proofs.Walk.Underway
