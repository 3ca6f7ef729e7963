import CallAtlas.Disk.Program

/-!
# Snapshots on a disk
-/

namespace CallAtlas.Snapshot

variable {m : Type → Type} [Monad m] [MonadDisk m]

def copyName (s : Snapshot) : String :=
  s!"snapshot_{s.revision}.json"

def save (p : Path) (s : Snapshot) : ExceptT Failure m Unit :=
  Disk.replaceText p s.toJson

def load? (p : Path) : ExceptT Failure m (Option Snapshot) := do
  let some text ← Disk.readText? p | return none
  match Snapshot.ofJson text with
  | .ok s => return some s
  | .error why => throw why.failure

def stage (p : Path) (s : Snapshot) : ExceptT Failure m Snapshot := do
  s.save p
  let some staged ← load? p | throw (.vanished p)
  return staged

end CallAtlas.Snapshot
