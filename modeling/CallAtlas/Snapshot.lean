import CallAtlas.Edge
import CallAtlas.Key.Ordinal

/-!
# Snapshots

The functions of one revision: a list of files and a list of records, each
with the place of its file in that list. A snapshot is built from bodies, the
records without their keys. Keys are always computed anew from what a body
holds, so that equal bodies in equal files have equal keys, and `build` refuses
bodies that name no file or would share a key. Records are found by their keys
through an index that is made along with them.
-/

namespace CallAtlas

/-- A function with its outgoing calls, not yet named by a key. -/
structure Body where
  file : Nat
  signature : Signature
  lines : Interval
  callees : List Edge
deriving DecidableEq, Repr, Inhabited

structure Record extends Body where
  key : Key
deriving DecidableEq, Repr, Inhabited

structure Snapshot where
  files : List String
  records : List Record
  revision : String
  /-- The place of each key in the list of records. -/
  index : List (Key × Nat)
deriving DecidableEq, Repr, Inhabited

namespace Snapshot

inductive Defect where
  /-- The list of records does not start with the number that stands before
  the first record. -/
  | noPlaceholder
  /-- The entry at this place is a number instead of a record. -/
  | notARecord (place : Nat)
  | fileOutOfRange (file count : Nat) (signature : Signature)
  | duplicateKey (key : Key)
deriving DecidableEq, Repr

def Defect.message : Defect → String
  | .noPlaceholder => "defs must start with the 0 placeholder"
  | .notARecord place => s!"defs[{place}] is not a function record"
  | .fileOutOfRange file count signature =>
      s!"file id {file} out of range for {count} files ({signature.text})"
  | .duplicateKey key => s!"duplicate function key {key.text}"

/-! ## Building -/

/-- The path of a file, empty for a file that is not listed. -/
def pathIn (files : List String) (file : Nat) : String :=
  files[file]?.getD ""

def sources (files : List String) (bodies : List Body) : List Key.Source :=
  bodies.map fun b => ⟨pathIn files b.file, b.signature, b.lines⟩

def withKeys (files : List String) (bodies : List Body) : List Record :=
  List.zipWith Record.mk bodies (Key.assign (sources files bodies))

/-- Enters records into an index, the first of them at `place`. A key that is
there already is refused. -/
def enter (index : List (Key × Nat)) (place : Nat) :
    List Record → Except Defect (List (Key × Nat))
  | [] => .ok index
  | r :: rest =>
      match index.lookup r.key with
      | some _ => .error (.duplicateKey r.key)
      | none => enter (index ++ [(r.key, place)]) (place + 1) rest

def build (files : List String) (bodies : List Body) (revision : String) :
    Except Defect Snapshot :=
  match bodies.find? fun b => files.length ≤ b.file with
  | some b => .error (.fileOutOfRange b.file files.length b.signature)
  | none => do
      let records := withKeys files bodies
      let index ← enter [] 0 records
      return ⟨files, records, revision, index⟩

def empty (revision : String) : Snapshot :=
  ⟨[], [], revision, []⟩

def withRevision (s : Snapshot) (revision : String) : Snapshot :=
  { s with revision }

/-! ## Looking up -/

def get? (s : Snapshot) (key : Key) : Option Record :=
  (s.index.lookup key).bind (s.records[·]?)

def hasKey (s : Snapshot) (key : Key) : Bool :=
  (s.index.lookup key).isSome

def pathOf (s : Snapshot) (r : Record) : String :=
  pathIn s.files r.file

/-- The first place of a path in the file list. -/
def fileId? (s : Snapshot) (path : String) : Option Nat :=
  s.files.findIdx? (· = path)

def hasFile (s : Snapshot) (path : String) : Bool :=
  (s.fileId? path).isSome

/-- The records of the file with that path. -/
def functionsIn (s : Snapshot) (path : String) : List Record :=
  s.records.filter fun r => s.fileId? path = some r.file

def keysAt (s : Snapshot) (line : UInt32) : List Key :=
  (s.records.filter (·.lines.contains line)).map (·.key)

/-! ## Edges -/

def edges (s : Snapshot) : List (Key × Edge) :=
  s.records.flatMap fun r => r.callees.map fun e => (r.key, e)

def edgeCount (s : Snapshot) : Nat :=
  s.edges.length

def ambiguousEdgeCount (s : Snapshot) : Nat :=
  s.edges.countP (·.2.callee.isAmbiguous)

/-- The edges with a callee that no record has. -/
def danglingEdges (s : Snapshot) : List (Key × Edge) :=
  s.edges.filter fun (_, e) => e.callee.keys.any fun key => !s.hasKey key

end Snapshot

end CallAtlas
