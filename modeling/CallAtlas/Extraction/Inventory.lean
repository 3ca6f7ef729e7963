import CallAtlas.Ascending
import CallAtlas.Extraction.Tables
import CallAtlas.Signature

/-!
# Function inventory

The definitions of one build by ascending row id, with canonical signatures.
Files are numbered by the first row that names them, so that the order in which
rows were collected does not matter. Where rows share an id the last of them
is the definition, but all of them count as bearers of their signatures.
-/

namespace CallAtlas.Extraction

structure Definition where
  file : Nat
  signature : Signature
  lines : Interval
deriving DecidableEq, Repr, Inhabited

structure Inventory where
  files : List String
  rows : List (RowId × Definition)
deriving DecidableEq, Repr, Inhabited

namespace Inventory

/-- The rows by ascending id, rows with the same id in table order. -/
def byId (rows : List DefinitionRow) : List DefinitionRow :=
  rows.mergeSort fun a b => a.id ≤ b.id

def definitionOf (files : List String) (row : DefinitionRow) : Definition :=
  ⟨files.idxOf row.path, .canonical row.signature, row.lines⟩

def extract (rows : List DefinitionRow) : Inventory :=
  let rows := byId rows
  let files := (rows.map (·.path)).eraseDups
  ⟨files, rows.map fun row => (row.id, definitionOf files row)⟩

/-- Keeps the last of neighbouring rows with the same id. -/
def lastOfEach : List (RowId × Definition) → List (RowId × Definition)
  | [] => []
  | [row] => [row]
  | row :: next :: rest =>
      if row.1 = next.1 then lastOfEach (next :: rest)
      else row :: lastOfEach (next :: rest)

def definitions (inv : Inventory) : List (RowId × Definition) :=
  lastOfEach inv.rows

def contains (inv : Inventory) (id : RowId) : Bool :=
  inv.rows.any (·.1 = id)

def candidates (inv : Inventory) (signature : Signature) : List RowId :=
  (inv.rows.filter (·.2.signature = signature)).map (·.1)

def signatures (inv : Inventory) : List Signature :=
  Ascending.ofList (inv.rows.map (·.2.signature))

def pathOf (inv : Inventory) (d : Definition) : String :=
  inv.files[d.file]?.getD ""

end Inventory

end CallAtlas.Extraction
