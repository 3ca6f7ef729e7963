import CallAtlas.Ascending
import CallAtlas.Interval
import CallAtlas.Signature
import CallAtlas.Total

/-!
# Changes to functions

What a revision did, function by function: for each file which functions it
added, removed and modified. A change set gathers such reports by path. Reports
for one path are united, so neither their order nor their repetition matters.
-/

namespace CallAtlas

structure FunctionChange where
  signature : Signature
  lines : Interval
deriving DecidableEq, Repr, Inhabited

namespace FunctionChange

instance : Ord FunctionChange where
  compare := compareLex (compareOn signature) (compareOn lines)

instance : Std.TransOrd FunctionChange :=
  inferInstanceAs (Std.TransCmp (compareLex _ _))

instance : Std.LawfulEqOrd FunctionChange where
  eq_of_compare {a b} h := by
    obtain ⟨h₁, h₂⟩ := compareLex_eq_eq.mp h
    cases a
    cases b
    exact congr (congrArg mk (Std.LawfulEqOrd.eq_of_compare h₁))
      (Std.LawfulEqOrd.eq_of_compare h₂)

end FunctionChange

structure FileChanges where
  added : List FunctionChange
  removed : List FunctionChange
  modified : List FunctionChange
deriving DecidableEq, Repr, Inhabited

namespace FileChanges

def empty : FileChanges :=
  ⟨[], [], []⟩

def isEmpty (c : FileChanges) : Bool :=
  c.added.isEmpty && c.removed.isEmpty && c.modified.isEmpty

def size (c : FileChanges) : Nat :=
  c.added.length + c.removed.length + c.modified.length

def union (c d : FileChanges) : FileChanges where
  added := Ascending.ofList (c.added ++ d.added)
  removed := Ascending.ofList (c.removed ++ d.removed)
  modified := Ascending.ofList (c.modified ++ d.modified)

end FileChanges

/-- Changes by path, the paths ascending. A file without changes has no
entry. -/
structure ChangeSet where
  entries : List (String × FileChanges)
deriving DecidableEq, Repr, Inhabited

namespace ChangeSet

def empty : ChangeSet :=
  ⟨[]⟩

def insertEntry (path : String) (changes : FileChanges) :
    List (String × FileChanges) → List (String × FileChanges)
  | [] => [(path, FileChanges.empty.union changes)]
  | (p, c) :: rest =>
      match compare path p with
      | .lt => (path, FileChanges.empty.union changes) :: (p, c) :: rest
      | .eq => (p, c.union changes) :: rest
      | .gt => (p, c) :: insertEntry path changes rest

/-- Adds a report for a path. An empty report leaves no entry. -/
def insert (s : ChangeSet) (path : String) (changes : FileChanges) : ChangeSet :=
  if changes.isEmpty then s else ⟨insertEntry path changes s.entries⟩

def get? (s : ChangeSet) (path : String) : Option FileChanges :=
  s.entries.lookup path

def size (s : ChangeSet) : Nat :=
  s.entries.length

def isEmpty (s : ChangeSet) : Bool :=
  s.entries.isEmpty

def functionCount (s : ChangeSet) : Nat :=
  total (s.entries.map (·.2.size))

end ChangeSet

end CallAtlas
