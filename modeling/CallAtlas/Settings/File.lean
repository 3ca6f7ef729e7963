import CallAtlas.Disk.Program
import CallAtlas.Settings

/-!
# Settings on a disk

A missing file is no settings at all. Settings that stand somewhere are only
replaced on demand.
-/

namespace CallAtlas.Settings

variable {m : Type → Type} [Monad m] [MonadDisk m]

def load? (p : Path) : ExceptT Failure m (Option Settings) := do
  let some text ← Disk.readText? p | return .none
  let some settings := ofText? text | throw .settings
  return some settings

def resolve (p : Path) (env : Environment) : ExceptT Failure m Settings := do
  return ((← load? p).getD .none).withEnvironment env

/-- Writes settings to a file. One that is there is only replaced by force. -/
def save (p : Path) (s : Settings) (force : Bool) : ExceptT Failure m Unit := do
  if !force then
    if ← MonadDisk.has (m := m) p then throw (.settingsExist p)
  Disk.attempt (MonadDisk.writeText p s.text)

end CallAtlas.Settings
