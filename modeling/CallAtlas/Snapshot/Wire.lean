import CallAtlas.Json.Decode
import CallAtlas.Json.Value
import CallAtlas.Snapshot

/-!
# Snapshots as JSON

A snapshot is written as its files, its records and its revision. Before the
first record stands the number 0, so that records are counted from one. A
record is the array of its file, signature, first and last line and edges; an
edge is the array of callee, line and column; a callee is the text of a key or
an array of such texts. The keys of records are not written.
-/

namespace CallAtlas

open Json (Value Decoder Fault)

/-! ## Keys, signatures and edges -/

def Key.toValue (k : Key) : Value :=
  .text k.text

def Key.decode : Decoder Key :=
  .ofText fun text => (Key.parse text).toOption

def Signature.toValue (s : Signature) : Value :=
  .text s.text

/-- A signature is taken as it is written. -/
def Signature.decode : Decoder Signature :=
  Decoder.text.map Signature.mk

def Callee.toValue : Callee → Value
  | .single key => key.toValue
  | .candidates keys => .array (keys.map Key.toValue)

def Callee.decode : Decoder Callee :=
  .whole (.either (Key.decode.map .single) ((Decoder.list Key.decode).map .candidates))

def Edge.toValue (e : Edge) : Value :=
  .array [e.callee.toValue, .word e.line, .word e.col]

def Edge.decode : Decoder Edge :=
  .tuple do
    let callee ← .next Callee.decode
    let line ← .next .word
    let col ← .next .word
    return ⟨callee, line, col⟩

/-! ## Records -/

def Body.toValue (b : Body) : Value :=
  .array [.natural b.file, b.signature.toValue, .word b.lines.first, .word b.lines.last,
    .array (b.callees.map Edge.toValue)]

def Body.decode : Decoder Body :=
  .tuple do
    let file ← .next (.natural 0x10000000000000000)
    let signature ← .next Signature.decode
    let first ← .next .word
    let last ← .next .word
    let callees ← .next (.list Edge.decode)
    return ⟨file, signature, ⟨first, last⟩, callees⟩

namespace Snapshot

inductive Entry where
  | number (n : Nat)
  | body (b : Body)
deriving DecidableEq, Repr

/-- An entry is read whole before its form is looked at. -/
def Entry.decode : Decoder Entry :=
  .whole (.either ((Decoder.natural 256).map .number) (Body.decode.map .body))

def bodiesFrom (place : Nat) : List Entry → Except Defect (List Body)
  | [] => .ok []
  | .number _ :: _ => .error (.notARecord place)
  | .body b :: rest => (bodiesFrom (place + 1) rest).map (b :: ·)

def bodiesOf : List Entry → Except Defect (List Body)
  | .number 0 :: rest => bodiesFrom 1 rest
  | _ => .error .noPlaceholder

/-! ## Snapshots -/

def toValue (s : Snapshot) : Value :=
  .object [
    ("files", .array (s.files.map .text)),
    ("defs", .array (.natural 0 :: s.records.map (·.toBody.toValue))),
    ("revision", .text s.revision)]

def toJson (s : Snapshot) : String :=
  s.toValue.render

structure Parts where
  files : List String
  entries : List Entry
  revision : String
deriving DecidableEq, Repr

structure SomeParts where
  files : Option (List String)
  entries : Option (List Entry)
  revision : Option String

def Parts.fields : List (Decoder.Field SomeParts) := [
  ⟨"files", (·.files.isSome), fun s =>
    (Decoder.list .text).map fun files => { s with files := some files }⟩,
  ⟨"defs", (·.entries.isSome), fun s =>
    (Decoder.list Entry.decode).map fun entries => { s with entries := some entries }⟩,
  ⟨"revision", (·.revision.isSome), fun s =>
    Decoder.text.map fun revision => { s with revision := some revision }⟩]

def SomeParts.finish (s : SomeParts) : Option Parts := do
  return ⟨← s.files, ← s.entries, ← s.revision⟩

def Parts.decode : Decoder Parts :=
  .record fields ⟨none, none, none⟩ SomeParts.finish

def ofParts (p : Parts) : Except Defect Snapshot := do
  build p.files (← bodiesOf p.entries) p.revision

/-- Reads a snapshot as one value among others: parts that make no snapshot
are a value of the wrong kind. -/
def decode : Decoder Snapshot := fun room node => do
  let parts ← Parts.decode room node
  (ofParts parts).mapError fun _ => .mismatched

inductive Unreadable where
  | json (fault : Fault)
  | defect (why : Defect)
deriving DecidableEq, Repr

def ofJson (text : String) : Except Unreadable Snapshot :=
  match Json.read Parts.decode text with
  | .error fault => .error (.json fault)
  | .ok parts => (ofParts parts).mapError .defect

end Snapshot

end CallAtlas
