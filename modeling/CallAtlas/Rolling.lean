import CallAtlas.Failure
import CallAtlas.Merge
import CallAtlas.Patch.Reader

/-!
# The rolling snapshot

One snapshot is carried from revision to revision. The first build becomes it
as it is; every later build is merged into it along the diff of its revision.
-/

namespace CallAtlas

def Merge.alongDiff (before after : Snapshot) (diff : String) : Except Failure Merge.Outcome := do
  let patch ← (Patch.parse diff).mapError .patch
  (Merge.alongPatch before after patch).mapError .snapshot

namespace Rolling

/-- Goes on by one revision. The diff of the first one is not looked at. -/
def advance (before : Option Snapshot) (after : Snapshot) (diff : String) :
    Except Failure Merge.Outcome :=
  match before with
  | some before => Merge.alongDiff before after diff
  | none => .ok ⟨after, .empty, .empty⟩

structure Revision where
  after : Snapshot
  diff : String
deriving DecidableEq, Repr, Inhabited

/-- The rolling snapshot after a revision. One that fails leaves it alone. -/
def step (state : Option Snapshot) (r : Revision) : Option Snapshot :=
  match advance state r.after r.diff with
  | .ok outcome => some outcome.snapshot
  | .error _ => state

def run (state : Option Snapshot) (revisions : List Revision) : Option Snapshot :=
  revisions.foldl step state

end Rolling

end CallAtlas
