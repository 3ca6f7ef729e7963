import CallAtlas.Interval
import CallAtlas.Store.Cell

/-!
# Databases

The tables that an extraction fills. A row has an id of its own besides its
cells: one more than the largest so far, unless it is given. Most columns of a
table together name a row, and two rows may not agree on all of them; a missing
value agrees with nothing.
-/

namespace CallAtlas.Store

inductive Table where
  | definitions
  | declarations
  | callgraphResolved
  | callgraphUnresolved
  | overridesResolved
  | overridesUnresolved
deriving DecidableEq, Repr

structure Column where
  name : String
  affinity : Affinity
  /-- It is among the columns that name a row. -/
  isKey : Bool
deriving DecidableEq, Repr

namespace Table

def all : List Table :=
  [definitions, declarations, callgraphResolved, callgraphUnresolved, overridesResolved,
    overridesUnresolved]

def name : Table → String
  | definitions => "definitions"
  | declarations => "declarations"
  | callgraphResolved => "callgraph_resolved"
  | callgraphUnresolved => "callgraph_unresolved"
  | overridesResolved => "overrides_resolved"
  | overridesUnresolved => "overrides_unresolved"

def keyColumns (affinity : Affinity) (names : List String) : List Column :=
  names.map (⟨·, affinity, true⟩)

def bodyColumns : List Column :=
  keyColumns .text ["FILENAME", "FUNNAME"] ++ keyColumns .number ["BEGIN", "END"]

def columns : Table → List Column
  | definitions => bodyColumns
  | declarations => bodyColumns ++ [⟨"DEF", .number, false⟩]
  | callgraphResolved => keyColumns .number ["CALLER", "CALLEE", "LINE", "COL", "VIRTUAL"]
  | callgraphUnresolved => keyColumns .number ["CALLER", "CALLEE", "LINE", "COL", "VIRTUAL"]
  | overridesResolved => keyColumns .number ["DEF", "VDEF"]
  | overridesUnresolved => keyColumns .number ["DEF", "VDEC"]

end Table

structure Row where
  id : Int
  cells : List Cell
deriving DecidableEq, Repr

/-- Rows in the order in which they were put in. A table without an entry does
not exist. -/
structure Database where
  tables : List (Table × List Row)
deriving DecidableEq, Repr, Inhabited

inductive Fault where
  | cannotOpen (path : String)
  | unreadable
  | notADatabase
  /-- What is there starts like a database and does not go on like one. -/
  | corrupt
  | noTable (table : Table)
  | notUnique (columns : List String)
  | wrongType (found : Cell) (index : Nat) (column : String)
  | outOfRange (n : Int) (index : Nat)
deriving DecidableEq, Repr

def Cell.typeName : Cell → String
  | null => "Null"
  | integer _ => "Integer"
  | real _ => "Real"
  | text _ => "Text"
  | blob _ => "Blob"

namespace Fault

def message : Fault → String
  | cannotOpen path => s!"unable to open database file: {path}"
  | unreadable => "disk I/O error"
  | notADatabase => "file is not a database"
  | corrupt => "database disk image is malformed"
  | noTable table => s!"no such table: {table.name}"
  | notUnique columns => "UNIQUE constraint failed: " ++ ", ".intercalate columns
  | wrongType found index column =>
      s!"Invalid column type {found.typeName} at index: {index}, name: {column}"
  | outOfRange n index => s!"Integer {n} out of range at index {index}"

def code? : Fault → Option String
  | cannotOpen _ => some "Error code 14: Unable to open the database file"
  | unreadable => some "Error code 266: SQLITE_IOERR_READ"
  | notADatabase => some "Error code 26: File opened that is not a database file"
  | corrupt => some "Error code 11: The database disk image is malformed"
  | noTable _ => some "Error code 1: SQL error or missing database"
  | notUnique _ => some "Error code 2067: A UNIQUE constraint failed"
  | wrongType _ _ _ => none
  | outOfRange _ _ => none

end Fault

namespace Database

/-- A file without content: no table exists. -/
def void : Database :=
  ⟨[]⟩

def empty : Database :=
  ⟨Table.all.map fun t => (t, [])⟩

def rows? (db : Database) (t : Table) : Option (List Row) :=
  db.tables.lookup t

def drop (db : Database) (t : Table) : Database :=
  ⟨db.tables.filter (·.1 ≠ t)⟩

def push (db : Database) (t : Table) (row : Row) : Database :=
  ⟨db.tables.map fun (u, rows) => (u, if u = t then rows ++ [row] else rows)⟩

def nextId (rows : List Row) : Int :=
  match (rows.map (·.id)).max? with
  | some largest => largest + 1
  | none => 1

def keyOf (t : Table) (cells : List Cell) : List Cell :=
  ((t.columns.zip cells).filter (·.1.isKey)).map (·.2)

/-- Whether some row has the key of the cells. A key with a missing value is no
row's. -/
def hasKey (t : Table) (rows : List Row) (cells : List Cell) : Bool :=
  let key := keyOf t cells
  !key.contains .null && rows.any fun row => keyOf t row.cells = key

def store (t : Table) (cells : List Cell) : List Cell :=
  List.zipWith (fun column => column.affinity.store) t.columns cells

def keyNames (t : Table) : List String :=
  (t.columns.filter (·.isKey)).map fun column => s!"{t.name}.{column.name}"

def insert (db : Database) (t : Table) (id : Option Int) (cells : List Cell) :
    Except Fault (Int × Database) :=
  match db.rows? t with
  | none => .error (.noTable t)
  | some rows =>
      let cells := store t cells
      let id := id.getD (nextId rows)
      if rows.any (·.id = id) then .error (.notUnique [s!"{t.name}.rowid"])
      else if hasKey t rows cells then .error (.notUnique (keyNames t))
      else .ok (id, db.push t ⟨id, cells⟩)

/-- Puts a row into a table unless its key is there already. -/
def insertNew (db : Database) (t : Table) (cells : List Cell) : Except Fault Database :=
  match db.rows? t with
  | none => .error (.noTable t)
  | some rows =>
      let cells := store t cells
      .ok (if hasKey t rows cells then db else db.push t ⟨nextId rows, cells⟩)

/-! ## Rows by meaning -/

def word (n : UInt32) : Cell :=
  .integer n.toNat

def reference : Option Int → Cell
  | some id => .integer id
  | none => .null

def bodyCells (path signature : String) (lines : Interval) : List Cell :=
  [.text path, .text signature, word lines.first, word lines.last]

def insertDefinition (db : Database) (path signature : String) (lines : Interval) :
    Except Fault (Int × Database) :=
  db.insert .definitions none (bodyCells path signature lines)

def insertDeclaration (db : Database) (path signature : String) (lines : Interval)
    (definition : Option Int) : Except Fault (Int × Database) :=
  db.insert .declarations none (bodyCells path signature lines ++ [reference definition])

def insertCall (db : Database) (t : Table) (caller callee : Int) (line col : UInt32)
    (isVirtual : Bool) : Except Fault Database :=
  db.insertNew t [.integer caller, .integer callee, word line, word col,
    .integer (if isVirtual then 1 else 0)]

def insertOverride (db : Database) (t : Table) (base other : Int) : Except Fault Database :=
  db.insertNew t [.integer base, .integer other]

end Database

end CallAtlas.Store
