import BuildDelta.IncrementalScan
import BuildDelta.Packing.Pack
import BuildDelta.Settings.File
import BuildDelta.SourceSet.Scan
import BuildDelta.Proofs.Packing.Counting
import BuildDelta.Proofs.Packing.Driver
import BuildDelta.Proofs.Packing.History
import BuildDelta.Proofs.Packing.Greedy
import BuildDelta.Proofs.Diff.Exact
import BuildDelta.Proofs.Text.Utf8
import BuildDelta.Proofs.Wire.RoundTrip
import BuildDelta.Proofs.Frame.RoundTrip
import BuildDelta.Proofs.Snapshot.RoundTrip
import BuildDelta.Proofs.FileSystem.Tree
import BuildDelta.Proofs.FileSystem.Way
import BuildDelta.Proofs.FileSystem.Action
import BuildDelta.Proofs.Path
import BuildDelta.Proofs.FileSystem.Directory
import BuildDelta.Proofs.FileSystem.Existing
import BuildDelta.Proofs.Store.Save
import BuildDelta.Proofs.Store.Folder
import BuildDelta.Proofs.Store.Kept
import BuildDelta.Proofs.Store.Faults
import BuildDelta.Proofs.Store.Unused
import BuildDelta.Proofs.Store.Loading
import BuildDelta.Proofs.Store.Refinement
import BuildDelta.Proofs.IncrementalScan.History
import BuildDelta.Proofs.Scan.Short
import BuildDelta.Proofs.SourceSet.RoundTrip
import BuildDelta.Proofs.SourceSet.Exact
import BuildDelta.Proofs.Frame.Damage
import BuildDelta.Proofs.Frame.ByteDamage
import BuildDelta.Proofs.IncrementalScan.Damaged
import BuildDelta.Proofs.Snapshot.Grammar
import BuildDelta.Proofs.FileSystem.SameTree
import BuildDelta.Proofs.Scan.Exact
import BuildDelta.Proofs.Scan.Parallel
import BuildDelta.Proofs.Diff.Merged
import BuildDelta.Proofs.Packing.Groups
import BuildDelta.Proofs.Packing.Accounting
import BuildDelta.Proofs.Packing.Outcome
import BuildDelta.Proofs.Packing.Stability
import BuildDelta.Proofs.Packing.Renaming
import BuildDelta.Proofs.SourceSet.Grammar
import BuildDelta.Proofs.FileSystem.Looked
import BuildDelta.Proofs.FileSystem.Making
import BuildDelta.Proofs.IncrementalScan.Committed
import BuildDelta.Proofs.Diff.WellFormed
import BuildDelta.Proofs.SourceSet.Stale
import BuildDelta.Proofs.Scan.Sources
import BuildDelta.Proofs.Json.Values
import BuildDelta.Proofs.SourceSet.Canonical
import BuildDelta.Proofs.Diff.Mirror
import BuildDelta.Proofs.Scan.Content
import BuildDelta.Proofs.Diff.Report
import BuildDelta.Proofs.Settings.Validated
import BuildDelta.Proofs.FileSystem.Below
import BuildDelta.Proofs.Scan.AbsolutePath
import BuildDelta.Proofs.Scan.Missing
import BuildDelta.Proofs.SourceSet.Directories
import BuildDelta.Proofs.Frame.Hostile
