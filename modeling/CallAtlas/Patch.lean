import CallAtlas.Ascending

/-!
# Patches

What a diff says line by line: for each file its old and new path and the lines
it keeps, takes out or puts in. A missing path is that of a file which does not
exist on that side.
-/

namespace CallAtlas

/-- A line of a hunk with its numbers on the sides that have it. A change on neither side,
which would touch nothing, has no value here, since no line of a hunk gives one. -/
inductive LineChange where
  | context (old new : UInt32)
  | deletion (old : UInt32)
  | insertion (new : UInt32)
deriving DecidableEq, Repr

namespace LineChange

def old? : LineChange → Option UInt32
  | context old _ => some old
  | deletion old => some old
  | insertion _ => none

def new? : LineChange → Option UInt32
  | context _ new => some new
  | deletion _ => none
  | insertion new => some new

def isDeletion : LineChange → Bool
  | deletion _ => true
  | _ => false

def isInsertion : LineChange → Bool
  | insertion _ => true
  | _ => false

end LineChange

structure FilePatch where
  old : Option String
  new : Option String
  changes : List LineChange
deriving DecidableEq, Repr, Inhabited

namespace FilePatch

/-- The path under which changes are reported: the old one, if there is one. -/
def reportPath? (f : FilePatch) : Option String :=
  f.old.or f.new

def paths (f : FilePatch) : List String :=
  f.old.toList ++ f.new.toList

end FilePatch

structure Patch where
  files : List FilePatch
deriving DecidableEq, Repr, Inhabited

namespace Patch

def paths (p : Patch) : List String :=
  Ascending.ofList (p.files.flatMap FilePatch.paths)

inductive Reason where
  | badGitHeader
  | unpairedHeader
  | badHunkHeader
  | rangeOutOfBounds
  | hunkBeforeFile
  | truncatedHunk
  | bodyTooLong
  | strayLine
deriving DecidableEq, Repr

def Reason.message : Reason → String
  | badGitHeader => "unparsable diff --git header"
  | unpairedHeader => "--- header without +++"
  | badHunkHeader => "bad hunk header"
  | rangeOutOfBounds => "hunk range out of bounds"
  | hunkBeforeFile => "hunk before file header"
  | truncatedHunk => "truncated hunk"
  | bodyTooLong => "hunk body longer than its header"
  | strayLine => "unexpected line inside hunk"

structure Malformed where
  line : Nat
  reason : Reason
deriving DecidableEq, Repr

def Malformed.message (m : Malformed) : String :=
  s!"Malformed diff at line {m.line}: {m.reason.message}"

end Patch

end CallAtlas
