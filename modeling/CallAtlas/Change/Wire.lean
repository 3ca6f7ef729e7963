import CallAtlas.Change
import CallAtlas.Snapshot.Wire

/-!
# Changes as JSON

A changed function is the array of its signature and its first and last line. A
change set is an object from paths to the three lists of a file. Of several
members with the same path the last counts.
-/

namespace CallAtlas

open Json (Value Decoder)

def FunctionChange.toValue (c : FunctionChange) : Value :=
  .array [c.signature.toValue, .word c.lines.first, .word c.lines.last]

def FunctionChange.decode : Decoder FunctionChange :=
  .tuple do
    let signature ← .next Signature.decode
    let first ← .next .word
    let last ← .next .word
    return ⟨signature, ⟨first, last⟩⟩

namespace FileChanges

def toValue (c : FileChanges) : Value :=
  .object [
    ("added", .array (c.added.map FunctionChange.toValue)),
    ("removed", .array (c.removed.map FunctionChange.toValue)),
    ("modified", .array (c.modified.map FunctionChange.toValue))]

structure SomeLists where
  added : Option (List FunctionChange)
  removed : Option (List FunctionChange)
  modified : Option (List FunctionChange)

def fields : List (Decoder.Field SomeLists) := [
  ⟨"added", (·.added.isSome), fun s =>
    (Decoder.list FunctionChange.decode).map fun added => { s with added := some added }⟩,
  ⟨"removed", (·.removed.isSome), fun s =>
    (Decoder.list FunctionChange.decode).map fun removed => { s with removed := some removed }⟩,
  ⟨"modified", (·.modified.isSome), fun s =>
    (Decoder.list FunctionChange.decode).map fun modified =>
      { s with modified := some modified }⟩]

def SomeLists.finish (s : SomeLists) : Option FileChanges := do
  return ⟨← s.added, ← s.removed, ← s.modified⟩

def decode : Decoder FileChanges :=
  .record fields ⟨none, none, none⟩ SomeLists.finish

end FileChanges

namespace ChangeSet

def toValue (s : ChangeSet) : Value :=
  .object (s.entries.map fun (path, changes) => (path, changes.toValue))

def toJson (s : ChangeSet) : String :=
  s.toValue.render

/-- Sets the entry of a path as it is written, without sorting its lists. -/
def setEntry (path : String) (changes : FileChanges) :
    List (String × FileChanges) → List (String × FileChanges)
  | [] => [(path, changes)]
  | (p, c) :: rest =>
      match compare path p with
      | .lt => (path, changes) :: (p, c) :: rest
      | .eq => (p, changes) :: rest
      | .gt => (p, c) :: setEntry path changes rest

/-- The change set with these members, which may repeat paths. -/
def ofMembers (members : List (String × FileChanges)) : ChangeSet :=
  ⟨members.foldl (fun entries (path, changes) => setEntry path changes entries) []⟩

def decode : Decoder ChangeSet :=
  (Decoder.dictionary FileChanges.decode).map ofMembers

end ChangeSet

end CallAtlas
