import CallAtlas.Change.Analysis

/-!
# Merging a partial rebuild

A later snapshot that covers only what was compiled again is merged into an
earlier one along the patch between them. Files that the patch names are taken
from the later snapshot or dropped; every other file keeps its records.
-/

namespace CallAtlas

structure Partition where
  /-- Known before only. -/
  deleted : List String
  /-- Known after only. -/
  inserted : List String
  /-- Known before and after. -/
  modified : List String
  /-- Known to neither. -/
  untracked : List String
deriving DecidableEq, Repr, Inhabited

namespace Partition

def empty : Partition :=
  ⟨[], [], [], []⟩

def ofPaths (paths : List String) (before after : Snapshot) : Partition where
  deleted := paths.filter fun p => before.hasFile p && !after.hasFile p
  inserted := paths.filter fun p => !before.hasFile p && after.hasFile p
  modified := paths.filter fun p => before.hasFile p && after.hasFile p
  untracked := paths.filter fun p => !before.hasFile p && !after.hasFile p

/-- The files whose records come from the later snapshot. -/
def changed (p : Partition) : List String :=
  Ascending.ofList (p.inserted ++ p.modified)

/-- The files whose earlier records are dropped. -/
def touched (p : Partition) : List String :=
  Ascending.ofList (p.changed ++ p.deleted)

def paths (p : Partition) : List String :=
  Ascending.ofList (p.touched ++ p.untracked)

end Partition

namespace Merge

/-- The place of a path in a file list, to which it is added if it is new. -/
def enlist (files : List String) (path : String) : Nat × List String :=
  match files.findIdx? (· = path) with
  | some place => (place, files)
  | none => (files.length, files ++ [path])

def enlistAll (keep : String → Bool) (files paths : List String) : List String :=
  paths.foldl (fun files path => if keep path then (enlist files path).2 else files) files

def move (s : Snapshot) (keep : String → Bool) (files : List String) :
    List Record → List Body × List String
  | [] => ([], files)
  | r :: rest =>
      if keep (s.pathOf r) then
        let (file, files) := enlist files (s.pathOf r)
        let (bodies, files) := move s keep files rest
        ({ r.toBody with file } :: bodies, files)
      else move s keep files rest

/-- The merged file list and bodies: what is left of the earlier snapshot, then
what has changed in the later one. -/
def parts (before after : Snapshot) (p : Partition) : List String × List Body :=
  let left (path : String) : Bool := !p.touched.contains path
  let files := enlistAll left [] before.files
  let (kept, files) := move before left files before.records
  let (added, files) := move after p.changed.contains files after.records
  (files, kept ++ added)

structure Outcome where
  snapshot : Snapshot
  changes : ChangeSet
  partition : Partition
deriving DecidableEq, Repr, Inhabited

def alongPatch (before after : Snapshot) (patch : Patch) : Except Snapshot.Defect Outcome := do
  let partition := Partition.ofPaths patch.paths before after
  let (files, bodies) := parts before after partition
  let snapshot ← Snapshot.build files bodies after.revision
  return ⟨snapshot, .ofPatch before after patch, partition⟩

end Merge

end CallAtlas
