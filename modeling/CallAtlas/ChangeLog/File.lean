import CallAtlas.ChangeLog
import CallAtlas.Disk.Program

/-!
# The change log on a disk
-/

namespace CallAtlas.ChangeLog

variable {m : Type → Type} [Monad m] [MonadDisk m]

def publish (p : Path) (r : Report) : ExceptT Failure m Unit := do
  Disk.makeParent p
  Disk.attempt (MonadDisk.appendText p r.line)

def load (p : Path) : ExceptT Failure m (List Report) := do
  let some text ← Disk.readText? p | return []
  match ChangeLog.read text with
  | .ok reports => return reports
  | .error fault => throw (.json fault)

end CallAtlas.ChangeLog
