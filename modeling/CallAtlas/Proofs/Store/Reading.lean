import CallAtlas.Proofs.Checks
import CallAtlas.Proofs.Store.Rows
import CallAtlas.Store.Load

/-!
# Reading tables back

A database that has the rows of some tables by ascending id is loaded as these
tables. What is put into a cell is read from it as it was, since no number is larger
than its cell and nothing is read as something else.
-/

namespace CallAtlas.Store

open Extraction (Tables DefinitionRow DeclarationRow CallRow OverrideRow)

/-! ## Cells of rows -/

def definitionCells (row : DefinitionRow) : List Cell :=
  Database.bodyCells row.path row.signature row.lines

def declarationCells (row : DeclarationRow) : List Cell :=
  definitionCells row.toDefinitionRow ++ [Database.reference row.definition]

def callCells (row : CallRow) : List Cell :=
  [Database.reference row.caller, Database.reference row.callee, Database.word row.line,
    Database.word row.col, .integer (if row.isVirtual then 1 else 0)]

def overrideCells (row : OverrideRow) : List Cell :=
  [Database.reference row.base, Database.reference row.other]

def cellsOf (tables : Tables) : Table → List (List Cell)
  | .definitions => tables.definitions.map definitionCells
  | .declarations => tables.declarations.map declarationCells
  | .callgraphResolved => tables.callsResolved.map callCells
  | .callgraphUnresolved => tables.callsUnresolved.map callCells
  | .overridesResolved => tables.overridesResolved.map overrideCells
  | .overridesUnresolved => tables.overridesUnresolved.map overrideCells

/-! Rows with the same cells are the same. -/

theorem word_injective : Function.Injective Database.word := by
  intro m n h
  have hnat : (m.toNat : Int) = n.toNat := Cell.integer.inj h
  exact UInt32.toNat_inj.mp (Int.ofNat.inj hnat)

theorem reference_injective : Function.Injective Database.reference := by
  intro a b h
  cases a <;> cases b <;> cases h <;> rfl

theorem callCells_injective : Function.Injective callCells := by
  intro a b h
  simp only [callCells, List.cons.injEq, reference_injective.eq_iff,
    word_injective.eq_iff, Cell.integer.injEq, and_true] at h
  obtain ⟨hcaller, hcallee, hline, hcol, hvirtual⟩ := h
  obtain ⟨caller, callee, line, col, isVirtual⟩ := a
  obtain ⟨caller', callee', line', col', isVirtual'⟩ := b
  rw [CallRow.mk.injEq]
  refine ⟨hcaller, hcallee, hline, hcol, ?_⟩
  cases isVirtual <;> cases isVirtual' <;> first | rfl | cases hvirtual

theorem overrideCells_injective : Function.Injective overrideCells := by
  intro a b h
  simp only [overrideCells, List.cons.injEq, reference_injective.eq_iff, and_true] at h
  obtain ⟨base, other⟩ := a
  exact congrArg₂ OverrideRow.mk h.1 h.2

/-! ## Reading cells -/

namespace Cursor

variable {c : Cursor} {index : Nat}

theorem get_of_cell {α : Type} {read : Cell → Option (Except Fault α)} {result : Except Fault α}
    (h : read (c.cell index).1 = some result) : c.get index read = result := by
  show (read (c.cell index).1).getD _ = result
  rw [h]
  rfl

theorem text_of_cell (content : String) (h : (c.cell index).1 = .text content) :
    c.text index = .ok content := by
  apply get_of_cell
  rw [h]

theorem word_of_cell (n : UInt32) (h : (c.cell index).1 = Database.word n) :
    c.word index = .ok n := by
  apply get_of_cell
  have hfits : (0 : Int) ≤ n.toNat ∧ (n.toNat : Int) < 0x100000000 := by
    have hlt := n.toNat_lt
    omega
  rw [h]
  simp only [Database.word, if_pos hfits, Int.toNat_natCast, Nat.toUInt32_eq, UInt32.ofNat_toNat]

theorem reference_of_cell (id : Option Int) (h : (c.cell index).1 = Database.reference id) :
    c.reference index = .ok id := by
  apply get_of_cell
  rw [h]
  cases id <;> rfl

theorem truth_of_cell (value : Bool)
    (h : (c.cell index).1 = .integer (if value then 1 else 0)) :
    c.truth index = .ok value := by
  apply get_of_cell
  rw [h]
  cases value <;> rfl

/-! ## Reading rows -/

/-- What stands behind the columns of a body does not matter. -/
theorem definition_of_cells (row : DefinitionRow) (more : List (Column × Cell)) :
    definition ⟨row.id, Table.bodyColumns.zip (definitionCells row) ++ more, 1⟩ = .ok row := by
  simp only [definition]
  rw [text_of_cell row.path rfl, text_of_cell row.signature rfl,
    word_of_cell row.lines.first rfl, word_of_cell row.lines.last rfl]
  rfl

theorem declaration_of_cells (row : DeclarationRow) :
    declaration ⟨row.id, Table.declarations.columns.zip (declarationCells row), 1⟩ = .ok row := by
  have hbody := definition_of_cells row.toDefinitionRow
    [(⟨"DEF", .number, false⟩, Database.reference row.definition)]
  have hcells : Table.declarations.columns.zip (declarationCells row) =
      Table.bodyColumns.zip (definitionCells row.toDefinitionRow) ++
        [(⟨"DEF", .number, false⟩, Database.reference row.definition)] := rfl
  simp only [declaration]
  rw [hcells, hbody, reference_of_cell row.definition rfl]
  rfl

/-- The two call tables name their columns alike. -/
theorem call_of_cells (id : Int) (row : CallRow) :
    call ⟨id, Table.callgraphResolved.columns.zip (callCells row), 0⟩ = .ok row := by
  simp only [call]
  rw [reference_of_cell row.caller rfl, reference_of_cell row.callee rfl,
    word_of_cell row.line rfl, word_of_cell row.col rfl,
    truth_of_cell row.isVirtual rfl]
  rfl

theorem override_of_cells (id : Int) (row : OverrideRow) {columns : List Column}
    (hcolumns : columns.length = 2) :
    override ⟨id, columns.zip (overrideCells row), 0⟩ = .ok row := by
  obtain ⟨base, other, rfl⟩ := List.length_eq_two.mp hcolumns
  simp only [override]
  rw [reference_of_cell row.base rfl, reference_of_cell row.other rfl]
  rfl

end Cursor

/-! ## Reading tables -/

namespace Database

theorem mapM_map_eq_ok {ε α β γ : Type} {read : β → Except ε γ} {row : α → β} {value : α → γ}
    {l : List α} (h : ∀ a ∈ l, read (row a) = .ok (value a)) :
    (l.map row).mapM read = .ok (l.map value) := by
  induction l with
  | nil => rfl
  | cons a l ih =>
      obtain ⟨ha, hl⟩ := List.forall_mem_cons.mp h
      rw [List.map_cons, List.mapM_cons, ha, ih hl]
      rfl

/-- Rows that stand by ascending id are read as they stand. -/
theorem readAll_of_pairwise {α : Type} {db : Database} {t : Table} {rows : List Row} {first : Nat}
    {read : Cursor → Except Fault α} (hrows : db.rows? t = some rows)
    (hids : rows.Pairwise fun a b => a.id < b.id) :
    db.readAll t first read =
      rows.mapM fun row => read ⟨row.id, t.columns.zip row.cells, first⟩ := by
  have hsorted : sorted rows = rows :=
    List.mergeSort_of_pairwise (hids.imp fun hlt => decide_eq_true (Int.le_of_lt hlt))
  rw [readAll, hrows]
  exact congrArg (List.mapM _) hsorted

theorem readAll_of_ids {α : Type} {db : Database} {t : Table} {l : List α} {cells : α → List Cell}
    {id : α → Int} {first : Nat} {read : Cursor → Except Fault α}
    (hrows : db.rows? t = some (l.map fun a => ⟨id a, cells a⟩))
    (hids : (l.map id).Pairwise (· < ·))
    (hread : ∀ a, read ⟨id a, t.columns.zip (cells a), first⟩ = .ok a) :
    db.readAll t first read = .ok l := by
  rw [readAll_of_pairwise hrows (List.pairwise_map.mpr (List.pairwise_map.mp hids))]
  refine (mapM_map_eq_ok fun a _ => ?_).trans (congrArg Except.ok (List.map_id' l))
  exact hread a

theorem readAll_of_cells {α : Type} {db : Database} {t : Table} {l : List α}
    {cells : α → List Cell} {first : Nat} {read : Cursor → Except Fault α}
    (hrows : db.rows? t = some (numbered (l.map cells)))
    (hread : ∀ id a, read ⟨id, t.columns.zip (cells a), first⟩ = .ok a) :
    db.readAll t first read = .ok l := by
  have hzip : numbered (l.map cells) =
      ((firstIds l.length).zip l).map fun entry => ⟨entry.1, cells entry.2⟩ := by
    rw [numbered, List.length_map, List.zip_map_right, List.map_map]
    rfl
  rw [readAll_of_pairwise hrows (pairwise_numbered _), hzip]
  refine (mapM_map_eq_ok fun entry _ => ?_).trans
    (congrArg Except.ok (List.map_snd_zip (length_firstIds _).ge))
  exact hread entry.1 entry.2

/-- The database has the rows of the tables, in their order, and the ids in the first
two tables are those that its rows have. -/
structure Holds (db : Database) (tables : Tables) : Prop where
  rows : ∀ t, db.rows? t = some (numbered (cellsOf tables t))
  definition_ids : tables.definitions.map (·.id) = firstIds tables.definitions.length
  declaration_ids : tables.declarations.map (·.id) = firstIds tables.declarations.length

/-- What the first two tables hold decides under which ids it is read. -/
theorem load_of_rows {db : Database} {tables : Tables}
    (hdefinitions : db.rows? .definitions =
      some (tables.definitions.map fun row => ⟨row.id, definitionCells row⟩))
    (hdeclarations : db.rows? .declarations =
      some (tables.declarations.map fun row => ⟨row.id, declarationCells row⟩))
    (hlinks : ∀ t, t ≠ .definitions → t ≠ .declarations →
      db.rows? t = some (numbered (cellsOf tables t)))
    (hdefinition_ids : (tables.definitions.map (·.id)).Pairwise (· < ·))
    (hdeclaration_ids : (tables.declarations.map (·.id)).Pairwise (· < ·)) :
    db.load = .ok tables := by
  have hread (row : DefinitionRow) : Cursor.definition
      ⟨row.id, Table.definitions.columns.zip (definitionCells row), 1⟩ = .ok row := by
    have hread := Cursor.definition_of_cells row []
    rw [List.append_nil] at hread
    exact hread
  rw [Database.load, readAll_of_ids hdefinitions hdefinition_ids hread,
    readAll_of_ids hdeclarations hdeclaration_ids Cursor.declaration_of_cells,
    readAll_of_cells (hlinks .callgraphResolved (by decide) (by decide)) Cursor.call_of_cells,
    readAll_of_cells (hlinks .callgraphUnresolved (by decide) (by decide)) Cursor.call_of_cells,
    readAll_of_cells (hlinks .overridesResolved (by decide) (by decide)) fun id row =>
      Cursor.override_of_cells id row rfl,
    readAll_of_cells (hlinks .overridesUnresolved (by decide) (by decide)) fun id row =>
      Cursor.override_of_cells id row rfl]
  rfl

theorem Holds.load {db : Database} {tables : Tables} (h : db.Holds tables) :
    db.load = .ok tables := by
  refine load_of_rows ?_ ?_ (fun t _ _ => h.rows t) ?_ ?_
  · rw [h.rows, cellsOf, numbered_map_of_ids definitionCells h.definition_ids]
  · rw [h.rows, cellsOf, numbered_map_of_ids declarationCells h.declaration_ids]
  · rw [h.definition_ids]
    exact pairwise_firstIds _
  · rw [h.declaration_ids]
    exact pairwise_firstIds _

/-- A database with the rows of tables, the definitions and the declarations under their
own ids. -/
def ofTables (tables : Tables) : Database where
  tables := [
    (.definitions, tables.definitions.map fun row => ⟨row.id, definitionCells row⟩),
    (.declarations, tables.declarations.map fun row => ⟨row.id, declarationCells row⟩),
    (.callgraphResolved, numbered (cellsOf tables .callgraphResolved)),
    (.callgraphUnresolved, numbered (cellsOf tables .callgraphUnresolved)),
    (.overridesResolved, numbered (cellsOf tables .overridesResolved)),
    (.overridesUnresolved, numbered (cellsOf tables .overridesUnresolved))]

theorem load_ofTables {tables : Tables}
    (hdefinition_ids : (tables.definitions.map (·.id)).Pairwise (· < ·))
    (hdeclaration_ids : (tables.declarations.map (·.id)).Pairwise (· < ·)) :
    (ofTables tables).load = .ok tables := by
  refine load_of_rows rfl rfl (fun t hdefinitions hdeclarations => ?_) hdefinition_ids
    hdeclaration_ids
  cases t with
  | definitions => exact absurd rfl hdefinitions
  | declarations => exact absurd rfl hdeclarations
  | callgraphResolved => rfl
  | callgraphUnresolved => rfl
  | overridesResolved => rfl
  | overridesUnresolved => rfl

end Database

end CallAtlas.Store
