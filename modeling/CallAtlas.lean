import CallAtlas.Change.Analysis
import CallAtlas.Command.Performance
import CallAtlas.Extraction.Assembly
import CallAtlas.Main
import CallAtlas.Pipeline
import CallAtlas.Proofs.Extraction.Dangling
import CallAtlas.Proofs.Merge.Layout
import CallAtlas.Proofs.Rolling
import CallAtlas.Proofs.Snapshot.RoundTrip
import CallAtlas.Snapshot.Wire
import CallAtlas.Store.Image
import CallAtlas.Proofs.Disk.Following
import CallAtlas.Proofs.Disk.Edits
import CallAtlas.Proofs.Disk.Programs
import CallAtlas.Proofs.Workspace
import CallAtlas.Proofs.Pipeline.Renewal
import CallAtlas.Proofs.Pipeline.Update
import CallAtlas.Proofs.Pipeline.Build
import CallAtlas.Proofs.Pipeline.Failure
import CallAtlas.Proofs.ChangeLog
import CallAtlas.Proofs.Pipeline.Preparation
import CallAtlas.Proofs.Pipeline.Session
import CallAtlas.Proofs.Merge.Copied
import CallAtlas.Proofs.Merge.Dangling
import CallAtlas.Proofs.Merge.Rebuild
import CallAtlas.Proofs.Patch.RoundTrip
import CallAtlas.Proofs.Merge.Replay
import CallAtlas.Proofs.Change.Analysis
import CallAtlas.Proofs.Merge.Report
import CallAtlas.Proofs.Key.Groups
import CallAtlas.Proofs.Extraction.Content
import CallAtlas.Proofs.Patch.Hunks
import CallAtlas.Proofs.Change.Meaning
import CallAtlas.Proofs.Change.Exclusive
import CallAtlas.Proofs.Signature
import CallAtlas.Proofs.Snapshot.Ownership
import CallAtlas.Proofs.Snapshot.Spelling
import CallAtlas.Proofs.Patch.Series
import CallAtlas.Proofs.Patch.Truncation
import CallAtlas.Proofs.Patch.Numbers
import CallAtlas.Proofs.Key.Locality
import CallAtlas.Proofs.Signature.Runs
import CallAtlas.Proofs.Change.Gathering
import CallAtlas.Proofs.Extraction.Conservation
import CallAtlas.Proofs.Snapshot.Collision
import CallAtlas.Proofs.Extraction.Indexes
import CallAtlas.Proofs.Extraction.Binding
import CallAtlas.Proofs.Extraction.Override
import CallAtlas.Proofs.Disk.Directories
import CallAtlas.Proofs.ChangeLog.Publishing
import CallAtlas.Proofs.Interval
import CallAtlas.Proofs.Key.Spelling
import CallAtlas.Proofs.Store.Filling
