import CallAtlas.Extraction.Tables
import CallAtlas.Store.Database

/-!
# Loading tables

Rows are read by ascending id, cell by cell, each as what its column should
hold. The first cell that holds something else ends the reading.
-/

namespace CallAtlas.Store

open Extraction (Tables DefinitionRow DeclarationRow CallRow OverrideRow)

/-- A row that is being read: its id and its cells with their columns, the id
being the column before the first one where rows are known by it. -/
structure Cursor where
  id : Int
  cells : List (Column × Cell)
  first : Nat

namespace Cursor

def cell (c : Cursor) (index : Nat) : Cell × String :=
  match c.cells[index - c.first]? with
  | some (column, cell) => (cell, column.name)
  | none => (.null, "")

/-- Reads a cell that `read` accepts. -/
def get (c : Cursor) (index : Nat) (read : Cell → Option (Except Fault α)) : Except Fault α :=
  let (cell, name) := c.cell index
  (read cell).getD (.error (.wrongType cell index name))

def text (c : Cursor) (index : Nat) : Except Fault String :=
  c.get index fun
    | .text content => some (.ok content)
    | _ => none

def word (c : Cursor) (index : Nat) : Except Fault UInt32 :=
  c.get index fun
    | .integer n =>
        some (if 0 ≤ n ∧ n < 0x100000000 then .ok n.toNat.toUInt32 else .error (.outOfRange n index))
    | _ => none

def reference (c : Cursor) (index : Nat) : Except Fault (Option Int) :=
  c.get index fun
    | .integer n => some (.ok (some n))
    | .null => some (.ok none)
    | _ => none

def truth (c : Cursor) (index : Nat) : Except Fault Bool :=
  c.get index fun
    | .integer n => some (.ok (n ≠ 0))
    | _ => none

def definition (c : Cursor) : Except Fault DefinitionRow := do
  let path ← c.text 1
  let signature ← c.text 2
  let first ← c.word 3
  let last ← c.word 4
  return ⟨c.id, path, signature, ⟨first, last⟩⟩

def declaration (c : Cursor) : Except Fault DeclarationRow := do
  let row ← c.definition
  return { row with definition := ← c.reference 5 }

def call (c : Cursor) : Except Fault CallRow := do
  return ⟨← c.reference 0, ← c.reference 1, ← c.word 2, ← c.word 3, ← c.truth 4⟩

def override (c : Cursor) : Except Fault OverrideRow := do
  return ⟨← c.reference 0, ← c.reference 1⟩

end Cursor

namespace Database

def sorted (rows : List Row) : List Row :=
  rows.mergeSort fun a b => a.id ≤ b.id

def readAll (db : Database) (t : Table) (first : Nat) (read : Cursor → Except Fault α) :
    Except Fault (List α) :=
  match db.rows? t with
  | none => .error (.noTable t)
  | some rows => (sorted rows).mapM fun row => read ⟨row.id, t.columns.zip row.cells, first⟩

def load (db : Database) : Except Fault Tables := do
  return ⟨← db.readAll .definitions 1 Cursor.definition,
    ← db.readAll .declarations 1 Cursor.declaration,
    ← db.readAll .callgraphResolved 0 Cursor.call,
    ← db.readAll .callgraphUnresolved 0 Cursor.call,
    ← db.readAll .overridesResolved 0 Cursor.override,
    ← db.readAll .overridesUnresolved 0 Cursor.override⟩

end Database

/-- A database of this name is in no file: it is new and has no tables. -/
def Database.isTransient (name : String) : Bool :=
  name.isEmpty || name = ":memory:"

/-- What a file holds, seen as a database: a file without content has no
tables. -/
def Database.ofText (text : String) : Except Fault Database :=
  if text.isEmpty then .ok .void else .error .notADatabase

end CallAtlas.Store
