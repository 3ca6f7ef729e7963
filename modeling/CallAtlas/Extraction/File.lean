import CallAtlas.Disk.Program
import CallAtlas.Extraction.Assembly

/-!
# Extractions on a disk
-/

namespace CallAtlas.Extraction

def assembleStore (db : Store.Database) (revision : String) : Except Failure Assembly := do
  let tables ← db.load.mapError .store
  (tables.assembly revision).mapError .snapshot

variable {m : Type → Type} [Monad m] [MonadDisk m]

def assembleFile (database : Path) (revision : String) : ExceptT Failure m Assembly := do
  let opened ← ExceptT.lift (MonadDisk.openDatabase (m := m) database)
  MonadExcept.ofExcept (opened.mapError .store >>= (assembleStore · revision))

end CallAtlas.Extraction
