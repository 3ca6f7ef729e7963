import CallAtlas.Disk
import CallAtlas.Json.Node
import CallAtlas.Patch
import CallAtlas.Snapshot.Wire

/-!
# Failures

Everything that can go wrong, by its cause. Each part of the library has causes
of its own; here they are gathered, and each gets its full message.
-/

namespace CallAtlas

inductive Failure where
  | key (why : Key.Defect)
  | json (fault : Json.Fault)
  | snapshot (why : Snapshot.Defect)
  | patch (why : Patch.Malformed)
  | store (why : Store.Fault)
  | disk (why : Disk.Fault)
  | settings
  | settingsExist (path : Path)
  | locked (path : Path)
  | vanished (path : Path)
deriving DecidableEq, Repr

def Json.Fault.message : Json.Fault → String
  | .unfinished => "the text ends inside a value"
  | .malformed => "the text is not well formed"
  | .mismatched => "a value is of the wrong kind"

namespace Failure

def message : Failure → String
  | key why => s!"Invalid function key: {why.message}"
  | json fault => s!"JSON error: {fault.message}"
  | snapshot why => s!"Invalid snapshot: {why.message}"
  | patch why => why.message
  | store why => s!"Storage error: {why.message}"
  | disk why => s!"IO error: {why.message}"
  | settings => "Config error: the text holds no settings"
  | settingsExist path => s!"config already exists at {path.text} (use --force to overwrite)"
  | locked path => s!"Lock held by another process: {path.text}"
  | vanished path => s!"Invalid snapshot: staged snapshot {path.text} vanished"

def causes : Failure → List String
  | json fault => [fault.message]
  | store why => why.message :: why.code?.toList
  | disk why => [why.message]
  | settings => ["the text holds no settings"]
  | _ => []

end Failure

/-- A snapshot that cannot be read fails by its text or by its parts. -/
def Snapshot.Unreadable.failure : Snapshot.Unreadable → Failure
  | .json fault => .json fault
  | .defect why => .snapshot why

end CallAtlas
