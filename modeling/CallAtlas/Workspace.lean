import CallAtlas.Disk.Program
import CallAtlas.Settings

/-!
# Workspaces

A workspace is the right to work on a cache: it holds the lock of the cache
until it is left. It comes with a directory for intermediate files, which is
removed with the workspace unless the settings name one.
-/

namespace CallAtlas

structure Workspace where
  cache : Path
  lock : Path
  scratch : Path
  /-- The scratch directory is removed when the workspace is left. -/
  isTemporary : Bool
deriving DecidableEq, Repr

namespace Workspace

def patchFile (w : Workspace) (revision : String) : Path :=
  w.scratch.child s!"patch_{revision}.diff"

def stagedFile (w : Workspace) (revision : String) : Path :=
  w.scratch.child s!"after_{revision}.json"

def rollingFile (cache : Path) : Path :=
  cache.child "snapshot.json"

variable {m : Type → Type} [Monad m] [MonadDisk m]

def withScratch (s : Settings) (lock : Path) : ExceptT Failure m Workspace :=
  match s.workDir with
  | some dir => do
      Disk.ensureDirectory dir
      return ⟨s.cache, lock, dir, false⟩
  | none => do
      return ⟨s.cache, lock, ← Disk.attempt MonadDisk.makeScratch, true⟩

def unlock (lock : Path) : ExceptT Failure m Unit :=
  ExceptT.lift (MonadDisk.unlock lock)

/-- Locks the cache. Where no scratch directory is to be had the lock is given
back. -/
def enter (s : Settings) : ExceptT Failure m Workspace := do
  Disk.ensureDirectory s.cache
  let lock := s.cache.child "revgraph.lock"
  Disk.makeParent lock
  unless ← Disk.attempt (MonadDisk.lock (m := m) lock) do throw (.locked lock)
  tryCatch (withScratch s lock) fun why => do
    unlock lock
    throw why

def leave (w : Workspace) : ExceptT Failure m Unit := do
  if w.isTemporary then ExceptT.lift (MonadDisk.dropScratch w.scratch)
  unlock w.lock

/-- Works in a workspace, which is left however that ends. -/
def within (s : Settings) (work : Workspace → ExceptT Failure m α) : ExceptT Failure m α := do
  let w ← enter s
  let result ← ExceptT.lift (work w).run
  w.leave
  MonadExcept.ofExcept result

end Workspace

end CallAtlas
