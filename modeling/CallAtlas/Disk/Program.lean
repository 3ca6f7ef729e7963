import CallAtlas.Disk
import CallAtlas.Failure

/-!
# Programs on disks

Programs are written for any monad that has a disk. Run in the state of a
`Disk` they are plain functions. A text is put at a path by way of a draft beside
it that is moved to its place, so that the path never holds a part of the text.
-/

namespace CallAtlas

class MonadDisk (m : Type → Type) where
  has : Path → m Bool
  hasDirectory : Path → m Bool
  readText : Path → m (Except Disk.Fault String)
  openDatabase : Path → m (Except Store.Fault Store.Database)
  makeDirectory : Path → m (Except Disk.Fault Unit)
  writeText : Path → String → m (Except Disk.Fault Unit)
  appendText : Path → String → m (Except Disk.Fault Unit)
  rename : Path → Path → m (Except Disk.Fault Unit)
  /-- Takes the lock of a file; the answer is whether it was free. -/
  lock : Path → m (Except Disk.Fault Bool)
  unlock : Path → m Unit
  makeScratch : m (Except Disk.Fault Path)
  dropScratch : Path → m Unit

namespace Disk

/-- Changes the disk unless that is impossible. -/
def update (change : Disk → Except Fault Disk) : StateM Disk (Except Fault Unit) := fun d =>
  match change d with
  | .ok changed => (.ok (), changed)
  | .error why => (.error why, d)

instance : MonadDisk (StateM Disk) where
  has p := (·.has p) <$> get
  hasDirectory p := (·.hasDirectory p) <$> get
  readText p := (·.readText p) <$> get
  openDatabase p := (·.openDatabase p) <$> get
  makeDirectory p := update (·.makeDirectory p)
  writeText p content := update (·.writeText p content)
  appendText p more := update (·.appendText p more)
  rename p q := update (·.rename p q)
  lock p := fun d =>
    match d.lock p with
    | .ok (free, changed) => (.ok free, changed)
    | .error why => (.error why, d)
  unlock p := modify (·.unlock p)
  makeScratch := modifyGet fun d => d.makeScratch.map .ok id
  dropScratch p := modify (·.dropScratch p)

/-! ## Programs that fail -/

variable {m : Type → Type} [Monad m] [MonadDisk m]

/-- Something on the disk that has to succeed. -/
def attempt (action : m (Except Fault α)) : ExceptT Failure m α :=
  ExceptT.mk ((·.mapError .disk) <$> action)

/-- Makes a directory; one that is there already will do. -/
def settle (p : Path) : m (Except Fault Unit) := do
  match ← MonadDisk.makeDirectory p with
  | .ok () => return .ok ()
  | .error why => return if ← MonadDisk.hasDirectory p then .ok () else .error why

/-- Makes the first of these directories, and those above it where needed. -/
def settleAll : List Path → m (Except Fault Unit)
  | [] => return .error .notFound
  | p :: above => do
      if p.text.isEmpty then return .ok ()
      match ← settle p with
      | .error .notFound =>
          match ← settleAll above with
          | .ok () => settle p
          | .error why => return .error why
      | result => return result

def makeDirectories (p : Path) : ExceptT Failure m Unit :=
  attempt (settleAll p.ancestors)

def makeParent (p : Path) : ExceptT Failure m Unit := do
  if let some parent := p.parent? then makeDirectories parent

def ensureDirectory (p : Path) : ExceptT Failure m Unit := do
  unless p.text.isEmpty do
    unless ← MonadDisk.has (m := m) p do makeDirectories p

def replaceText (p : Path) (content : String) : ExceptT Failure m Unit := do
  makeParent p
  attempt (MonadDisk.writeText p.draft content)
  attempt (MonadDisk.rename p.draft p)

def readText? (p : Path) : ExceptT Failure m (Option String) := do
  if ← MonadDisk.has (m := m) p then some <$> attempt (MonadDisk.readText p) else return none

end Disk

end CallAtlas
