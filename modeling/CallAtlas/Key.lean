import CallAtlas.Digest
import CallAtlas.Signature
import CallAtlas.Text.Quoted

/-!
# Function keys

A key is the stable name of a function: 64 bits of digest over the path of its
file, its signature and its ordinal, the rank of the function among those of
the same file and signature. Digesting is kept apart from what is digested:
`material` lays out the bytes and `ofBytes` reads a number off the digest.

The text of a key is its sixteen hexadecimal digits in lower case. `parse`
reads it back in either case.
-/

namespace CallAtlas

structure Key where
  word : UInt64
deriving DecidableEq, Repr, Inhabited

namespace Key

/-! ## Derivation -/

def utf8 (text : String) : List UInt8 :=
  text.toList.flatMap String.utf8EncodeChar

/-- A number in eight bytes, least significant first. -/
def ordinalBytes (n : Nat) : List UInt8 :=
  (List.range 8).map fun i => (n / Nat.pow 256 i).toUInt8

/-- The bytes a key is digested from: path and signature, each closed by a zero
byte, then the ordinal. -/
def material (path : String) (signature : Signature) (ordinal : Nat) : List UInt8 :=
  utf8 path ++ 0 :: utf8 signature.text ++ 0 :: ordinalBytes ordinal

/-- The first eight bytes as a number, most significant first. -/
def ofBytes (bytes : List UInt8) : Key :=
  ⟨(bytes.take 8).foldl (fun acc byte => (acc <<< 8) ||| byte.toUInt64) 0⟩

def derive (path : String) (signature : Signature) (ordinal : Nat) : Key :=
  ofBytes (Digest.hash (material path signature ordinal))

/-! ## Text -/

def text (k : Key) : String :=
  String.ofList (Text.hexDigits 16 k.word.toNat)

inductive Defect where
  | length (text : String)
  | digits (text : String)
deriving DecidableEq, Repr

def Defect.message : Defect → String
  | .length text => s!"expected 16 hex digits, got {Text.quoted text}"
  | .digits text => s!"not a hex key: {Text.quoted text}"

def dropPlus : List Char → List Char
  | '+' :: rest => rest
  | digits => digits

/-- Reads the text of a key: sixteen bytes, which write a number in base
sixteen, a plus sign allowed before it. -/
def parse (text : String) : Except Defect Key :=
  if text.utf8ByteSize ≠ 16 then .error (.length text)
  else
    match Text.hexFrom? 0 (dropPlus text.toList) with
    | some n => .ok ⟨n.toUInt64⟩
    | none => .error (.digits text)

end Key

end CallAtlas
