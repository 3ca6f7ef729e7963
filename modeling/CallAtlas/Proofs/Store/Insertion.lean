import CallAtlas.Proofs.Store.Reading

/-!
# Rows to be put in

One type for the rows of all tables, with what each of them does to a database whose rows
are numbered. A definition or a declaration is refused if its table has its path, signature
and lines already; a call or an override that is there already is passed over; every other
row gets the next id.
-/

namespace CallAtlas.Store

open Extraction (RowId Tables CallRow OverrideRow)

/-- A row to be put in. Calls and overrides go into the resolved table or into the other
one. -/
inductive Insertion where
  | definition (path signature : String) (lines : Interval)
  | declaration (path signature : String) (lines : Interval) (definition : Option RowId)
  | call (isResolved : Bool) (caller callee : RowId) (line col : UInt32) (isVirtual : Bool)
  | override (isResolved : Bool) (base other : RowId)
deriving DecidableEq, Repr

/-- Definitions and declarations are answered with their ids. -/
abbrev Answer :=
  Except Fault (Option RowId)

namespace Insertion

def callTable (isResolved : Bool) : Table :=
  if isResolved then .callgraphResolved else .callgraphUnresolved

def overrideTable (isResolved : Bool) : Table :=
  if isResolved then .overridesResolved else .overridesUnresolved

def apply (db : Database) : Insertion → Except Fault (Option RowId × Database)
  | definition path signature lines =>
      (db.insertDefinition path signature lines).map fun (id, db) => (some id, db)
  | declaration path signature lines definition? =>
      (db.insertDeclaration path signature lines definition?).map fun (id, db) => (some id, db)
  | call isResolved caller callee line col isVirtual =>
      (db.insertCall (callTable isResolved) caller callee line col isVirtual).map fun db =>
        (none, db)
  | override isResolved base other =>
      (db.insertOverride (overrideTable isResolved) base other).map fun db => (none, db)

/-- What no other row of the table may have as well. It leaves out which definition a
declaration has. -/
def body? : Insertion → Option (Table × String × String × Interval)
  | definition path signature lines => some (.definitions, path, signature, lines)
  | declaration path signature lines _ => some (.declarations, path, signature, lines)
  | call .. => none
  | override .. => none

def table : Insertion → Table
  | definition .. => .definitions
  | declaration .. => .declarations
  | call isResolved .. => callTable isResolved
  | override isResolved .. => overrideTable isResolved

def cells : Insertion → List Cell
  | definition path signature lines => Database.bodyCells path signature lines
  | declaration path signature lines definition? =>
      Database.bodyCells path signature lines ++ [Database.reference definition?]
  | call _ caller callee line col isVirtual =>
      callCells ⟨some caller, some callee, line, col, isVirtual⟩
  | override _ base other => overrideCells ⟨some base, some other⟩

/-- The cells that name the row. -/
def key : Insertion → List Cell
  | definition path signature lines => Database.bodyCells path signature lines
  | declaration path signature lines _ => Database.bodyCells path signature lines
  | call _ caller callee line col isVirtual =>
      callCells ⟨some caller, some callee, line, col, isVirtual⟩
  | override _ base other => overrideCells ⟨some base, some other⟩

/-- They are rows of one table and named alike. -/
def SameKey (i j : Insertion) : Prop :=
  i.table = j.table ∧ i.key = j.key

def answer (id : RowId) (i : Insertion) : Option RowId :=
  i.body?.map fun _ => id

/-- A row of its table is named like it. -/
def Taken (tables : Tables) (i : Insertion) : Prop :=
  Database.Has i.table (cellsOf tables i.table) i.cells

instance (tables : Tables) (i : Insertion) : Decidable (i.Taken tables) :=
  inferInstanceAs (Decidable (Database.Has ..))

def next (tables : Tables) (i : Insertion) : RowId :=
  (cellsOf tables i.table).length + 1

/-- The tables with the row at the end of its table. -/
def enter (tables : Tables) (id : RowId) : Insertion → Tables
  | definition path signature lines =>
      { tables with definitions := tables.definitions ++ [⟨id, path, signature, lines⟩] }
  | declaration path signature lines definition? =>
      { tables with
        declarations := tables.declarations ++ [⟨⟨id, path, signature, lines⟩, definition?⟩] }
  | call true caller callee line col isVirtual =>
      { tables with
        callsResolved :=
          tables.callsResolved ++ [⟨some caller, some callee, line, col, isVirtual⟩] }
  | call false caller callee line col isVirtual =>
      { tables with
        callsUnresolved :=
          tables.callsUnresolved ++ [⟨some caller, some callee, line, col, isVirtual⟩] }
  | override true base other =>
      { tables with overridesResolved := tables.overridesResolved ++ [⟨some base, some other⟩] }
  | override false base other =>
      { tables with
        overridesUnresolved := tables.overridesUnresolved ++ [⟨some base, some other⟩] }

variable {db : Database} {tables : Tables} {i j : Insertion} {id : RowId}

/-! ## Keys -/

theorem store_cells (i : Insertion) : Database.store i.table i.cells = i.cells := by
  cases i with
  | definition => rfl
  | declaration _ _ _ definition? => cases definition? <;> rfl
  | call isResolved => cases isResolved <;> rfl
  | override isResolved => cases isResolved <;> rfl

theorem keyOf_cells (i : Insertion) : Database.keyOf i.table i.cells = i.key := by
  cases i with
  | definition => rfl
  | declaration => rfl
  | call isResolved => cases isResolved <;> rfl
  | override isResolved => cases isResolved <;> rfl

theorem null_not_mem_key (i : Insertion) : .null ∉ i.key := by
  cases i <;>
    simp [key, Database.bodyCells, callCells, overrideCells, Database.word, Database.reference]

theorem null_not_mem_keyOf (i : Insertion) : .null ∉ Database.keyOf i.table i.cells :=
  keyOf_cells i ▸ null_not_mem_key i

theorem bodyCells_inj {path path' signature signature' : String} {lines lines' : Interval} :
    Database.bodyCells path signature lines = Database.bodyCells path' signature' lines' ↔
      path = path' ∧ signature = signature' ∧ lines = lines' := by
  constructor
  · intro h
    simp only [Database.bodyCells, List.cons.injEq, Cell.text.injEq, word_injective.eq_iff,
      and_true] at h
    obtain ⟨hpath, hsignature, hfirst, hlast⟩ := h
    obtain ⟨first, last⟩ := lines
    exact ⟨hpath, hsignature, congrArg₂ Interval.mk hfirst hlast⟩
  · rintro ⟨rfl, rfl, rfl⟩
    rfl

theorem keyOf_callCells (isResolved : Bool) (row : CallRow) :
    Database.keyOf (callTable isResolved) (callCells row) = callCells row := by
  cases isResolved <;> rfl

theorem keyOf_overrideCells (isResolved : Bool) (row : OverrideRow) :
    Database.keyOf (overrideTable isResolved) (overrideCells row) =
      overrideCells row := by
  cases isResolved <;> rfl

/-- The other tables hold neither definitions nor declarations. -/
theorem link_tables (isResolved : Bool) :
    (callTable isResolved ≠ .definitions ∧ callTable isResolved ≠ .declarations) ∧
      overrideTable isResolved ≠ .definitions ∧ overrideTable isResolved ≠ .declarations := by
  cases isResolved <;> decide

/-- Definitions and declarations have the same key in the same table exactly if they have
the same body. -/
theorem sameKey_iff {earlier : Insertion} {body : Table × String × String × Interval}
    (hbody : i.body? = some body) :
    earlier.SameKey i ↔ earlier.body? = some body := by
  cases i <;> cases hbody <;> cases earlier <;>
    simp [SameKey, table, key, body?, link_tables, bodyCells_inj]

/-! ## Tables with one more row -/

theorem cellsOf_enter (tables : Tables) (id : RowId) (i : Insertion) (t : Table) :
    cellsOf (i.enter tables id) t =
      cellsOf tables t ++ if t = i.table then [i.cells] else [] := by
  cases i with
  | definition => cases t <;> simp [cellsOf, enter, table, cells, definitionCells]
  | declaration =>
      cases t <;> simp [cellsOf, enter, table, cells, declarationCells, definitionCells]
  | call isResolved =>
      cases isResolved <;> cases t <;> simp [cellsOf, enter, table, cells, callTable]
  | override isResolved =>
      cases isResolved <;> cases t <;> simp [cellsOf, enter, table, cells, overrideTable]

theorem Taken.of_sameKey (h : i.Taken tables) (hsame : i.SameKey j) : j.Taken tables := by
  obtain ⟨old, hold, hkey⟩ := h
  rw [keyOf_cells, hsame.2, ← keyOf_cells, hsame.1] at hkey
  exact ⟨old, hsame.1 ▸ hold, hkey⟩

theorem taken_enter_iff : j.Taken (i.enter tables id) ↔ j.Taken tables ∨ i.SameKey j := by
  rw [Taken, cellsOf_enter]
  by_cases htable : j.table = i.table
  · rw [if_pos htable, Database.has_append_singleton, keyOf_cells, htable, keyOf_cells, Taken,
      SameKey, htable, and_iff_right rfl]
  · rw [if_neg htable, List.append_nil, Taken, SameKey, or_iff_left]
    exact fun hsame => htable hsame.1.symm

theorem holds_enter (h : db.Holds tables) (i : Insertion) :
    (db.push i.table ⟨i.next tables, i.cells⟩).Holds (i.enter tables (i.next tables)) where
  rows t := by
    rw [Database.rows?_push, h.rows t, Option.map_some, cellsOf_enter]
    by_cases htable : t = i.table
    · rw [if_pos htable, if_pos htable, numbered_append_singleton, htable]
      rfl
    · rw [if_neg htable, if_neg htable, List.append_nil]
  definition_ids := by
    cases i with
    | definition =>
        refine map_id_append h.definition_ids ?_
        simp only [next, table, cellsOf, List.length_map]
    | declaration => exact h.definition_ids
    | call isResolved => cases isResolved <;> exact h.definition_ids
    | override isResolved => cases isResolved <;> exact h.definition_ids
  declaration_ids := by
    cases i with
    | definition => exact h.declaration_ids
    | declaration =>
        refine map_id_append h.declaration_ids ?_
        simp only [next, table, cellsOf, List.length_map]
    | call isResolved => cases isResolved <;> exact h.declaration_ids
    | override isResolved => cases isResolved <;> exact h.declaration_ids

/-! ## What a row does -/

theorem insert_eq (h : db.Holds tables) (i : Insertion) :
    db.insert i.table none i.cells =
      if i.Taken tables then .error (.notUnique (Database.keyNames i.table))
      else .ok (i.next tables, db.push i.table ⟨i.next tables, i.cells⟩) :=
  Database.insert_numbered (h.rows i.table) (store_cells i) (null_not_mem_keyOf i)

theorem insertNew_eq (h : db.Holds tables) (i : Insertion) :
    db.insertNew i.table i.cells =
      .ok (if i.Taken tables then db else db.push i.table ⟨i.next tables, i.cells⟩) :=
  Database.insertNew_numbered (h.rows i.table) (store_cells i) (null_not_mem_keyOf i)

/-- A row whose key is new gets the next id. -/
theorem apply_of_not_taken (h : db.Holds tables) (hnew : ¬ i.Taken tables) :
    i.apply db =
      .ok (i.answer (i.next tables), db.push i.table ⟨i.next tables, i.cells⟩) := by
  have hinsert := insert_eq h i
  have hinsertNew := insertNew_eq h i
  rw [if_neg hnew] at hinsert hinsertNew
  cases i with
  | definition => exact congrArg (Except.map _) hinsert
  | declaration => exact congrArg (Except.map _) hinsert
  | call => exact congrArg (Except.map _) hinsertNew
  | override => exact congrArg (Except.map _) hinsertNew

theorem apply_of_taken_body (h : db.Holds tables) (htaken : i.Taken tables)
    (hbody : i.body?.isSome) :
    i.apply db = .error (.notUnique (Database.keyNames i.table)) := by
  have hinsert := insert_eq h i
  rw [if_pos htaken] at hinsert
  cases i with
  | definition => exact congrArg (Except.map _) hinsert
  | declaration => exact congrArg (Except.map _) hinsert
  | call => cases hbody
  | override => cases hbody

theorem apply_of_taken_link (h : db.Holds tables) (htaken : i.Taken tables)
    (hbody : i.body? = none) : i.apply db = .ok (none, db) := by
  have hinsertNew := insertNew_eq h i
  rw [if_pos htaken] at hinsertNew
  cases i with
  | definition => cases hbody
  | declaration => cases hbody
  | call => exact congrArg (Except.map _) hinsertNew
  | override => exact congrArg (Except.map _) hinsertNew

end Insertion

end CallAtlas.Store
