import CallAtlas.ChangeLog.File
import CallAtlas.Extraction.File
import CallAtlas.Rolling
import CallAtlas.Snapshot.File
import CallAtlas.Workspace

/-!
# From revision to revision on a disk

The rolling snapshot is kept in a cache. A full build starts it; each later
build, of the files that a revision touches, is merged into it along the diff of
the revision, and what that changes is reported to the logs. The rolling snapshot is
replaced once the merge has succeeded, the copy of it is kept after that, and the
report comes last.
-/

namespace CallAtlas

structure Commit where
  revision : String
  author : String
  description : String
deriving DecidableEq, Repr, Inhabited

structure Pipeline where
  settings : Settings
  logs : List Path
deriving DecidableEq, Repr, Inhabited

namespace Pipeline

def reporting (s : Settings) : Pipeline :=
  ⟨s, [s.log]⟩

def silent (s : Settings) : Pipeline :=
  ⟨s, []⟩

structure Summary where
  revision : String
  /-- There was no rolling snapshot, so nothing was merged or reported. -/
  isFirst : Bool
  outcome : Merge.Outcome
deriving DecidableEq, Repr

variable {m : Type → Type} [Monad m] [MonadDisk m]

def keepCopy (p : Pipeline) (s : Snapshot) : ExceptT Failure m Unit := do
  if let some dir := p.settings.snapshotDir then s.save (dir.child s.copyName)

/-- Writes the diff and the snapshot of a partial build to the scratch directory
and reads them back, so that the merge is of what is kept there. -/
def stage (w : Workspace) (database : Path) (revision diff : String) :
    ExceptT Failure m (Snapshot × String) := do
  Disk.replaceText (w.patchFile revision) diff
  let assembly ← Extraction.assembleFile database revision
  let after ← assembly.snapshot.stage (w.stagedFile revision)
  return (after, ← Disk.attempt (MonadDisk.readText (w.patchFile revision)))

/-- Makes a full build the rolling snapshot. -/
def prepare (p : Pipeline) (database : Path) (revision : String) : ExceptT Failure m Snapshot :=
  Workspace.within p.settings fun w => do
    let assembly ← Extraction.assembleFile database revision
    assembly.snapshot.save (Workspace.rollingFile w.cache)
    p.keepCopy assembly.snapshot
    return assembly.snapshot

/-- Reports what a revision has changed. The logs after one that fails are left
alone. -/
def publish (p : Pipeline) (c : Commit) (changes : ChangeSet) : ExceptT Failure m Unit :=
  p.logs.forM fun log => ChangeLog.publish log ⟨c.revision, c.author, c.description, changes⟩

/-- Merges a snapshot into the rolling one and puts the merged one in its place.
The answer says what the rolling snapshot was before. -/
def absorb (w : Workspace) (after : Snapshot) (diff : String) :
    ExceptT Failure m (Option Snapshot × Merge.Outcome) := do
  let rolling := Workspace.rollingFile w.cache
  let before ← Snapshot.load? rolling
  let outcome ← MonadExcept.ofExcept (Rolling.advance before after diff)
  outcome.snapshot.save rolling
  return (before, outcome)

def renew (w : Workspace) (database : Path) (revision diff : String) :
    ExceptT Failure m (Option Snapshot × Merge.Outcome) := do
  let (after, diff) ← stage w database revision diff
  absorb w after diff

/-- What follows once the rolling snapshot is replaced: a copy of it is kept and,
unless it is the first, the change is reported. -/
def conclude (p : Pipeline) (c : Commit) (before : Option Snapshot) (outcome : Merge.Outcome) :
    ExceptT Failure m Unit := do
  p.keepCopy outcome.snapshot
  if before.isSome then p.publish c outcome.changes

def update (p : Pipeline) (database : Path) (c : Commit) (diff : String) :
    ExceptT Failure m Summary :=
  Workspace.within p.settings fun w => do
    let (before, outcome) ← renew w database c.revision diff
    p.conclude c before outcome
    return ⟨c.revision, before.isNone, outcome⟩

def rolling? (p : Pipeline) : ExceptT Failure m (Option Snapshot) :=
  Snapshot.load? (Workspace.rollingFile p.settings.cache)

end Pipeline

end CallAtlas
