import CallAtlas.Extraction.Inventory
import CallAtlas.Proofs.Distinct

/-!
# What an inventory holds

Rows are sorted by id, and rows with the same id stay in table order, so the
last of them in the sorted list is the last of them in the table. The inventory
has one definition for each row id that occurs, ascending.
-/

namespace CallAtlas.Extraction

/-- The row that decides about an id: the last one that has it. -/
def definitionRow? (rows : List DefinitionRow) (id : RowId) : Option DefinitionRow :=
  (rows.filter (·.id = id)).getLast?

theorem definitionRow?_isSome_iff {rows : List DefinitionRow} {id : RowId} :
    (definitionRow? rows id).isSome ↔ ∃ row ∈ rows, row.id = id := by
  rw [definitionRow?, List.getLast?_isSome, ne_eq, List.filter_eq_nil_iff]
  simp

theorem mem_of_definitionRow? {rows : List DefinitionRow} {id : RowId} {row : DefinitionRow}
    (h : definitionRow? rows id = some row) : row ∈ rows ∧ row.id = id := by
  simpa using List.mem_filter.mp (List.mem_of_getLast? h)

namespace Inventory

/-! ## Sorting -/

theorem perm_byId (rows : List DefinitionRow) : (byId rows).Perm rows :=
  List.mergeSort_perm rows _

theorem le_id_trans (a b c : DefinitionRow) (hab : decide (a.id ≤ b.id) = true)
    (hbc : decide (b.id ≤ c.id) = true) : decide (a.id ≤ c.id) = true :=
  decide_eq_true (Int.le_trans (of_decide_eq_true hab) (of_decide_eq_true hbc))

theorem le_id_total (a b : DefinitionRow) :
    (decide (a.id ≤ b.id) || decide (b.id ≤ a.id)) = true := by
  simpa using Int.le_total a.id b.id

theorem pairwise_byId (rows : List DefinitionRow) :
    (byId rows).Pairwise fun a b => a.id ≤ b.id := by
  have h := List.pairwise_mergeSort le_id_trans le_id_total rows
  exact h.imp of_decide_eq_true

theorem filter_byId (rows : List DefinitionRow) (id : RowId) :
    (byId rows).filter (·.id = id) = rows.filter (·.id = id) := by
  have hle : (rows.filter (·.id = id)).Pairwise fun a b => decide (a.id ≤ b.id) = true := by
    rw [List.pairwise_filter]
    refine List.pairwise_of_forall ?_
    intro a b ha hb
    rw [of_decide_eq_true ha, of_decide_eq_true hb]
    exact decide_eq_true (Int.le_refl id)
  have hsub : (rows.filter (·.id = id)).Sublist (byId rows) :=
    List.sublist_mergeSort le_id_trans le_id_total hle List.filter_sublist
  have hkept := hsub.filter (·.id = id)
  rw [List.filter_filter] at hkept
  simp only [Bool.and_self] at hkept
  exact (hkept.eq_of_length ((perm_byId rows).filter _).length_eq.symm).symm

theorem definitionRow?_byId (rows : List DefinitionRow) (id : RowId) :
    definitionRow? (byId rows) id = definitionRow? rows id := by
  rw [definitionRow?, filter_byId, definitionRow?]

/-! ## The last of each -/

theorem mem_of_mem_lastOfEach {rows : List (RowId × Definition)} {entry : RowId × Definition}
    (h : entry ∈ lastOfEach rows) : entry ∈ rows := by
  fun_induction lastOfEach rows with
  | case1 => exact h
  | case2 => exact h
  | case3 row next rest heq ih => exact List.mem_cons_of_mem _ (ih h)
  | case4 row next rest hne ih =>
      rcases List.mem_cons.mp h with rfl | h
      · exact List.mem_cons_self
      · exact List.mem_cons_of_mem _ (ih h)

theorem lt_of_mem_tail {row next entry : RowId × Definition} {rest : List (RowId × Definition)}
    (h : (row :: next :: rest).Pairwise fun a b => a.1 ≤ b.1) (hne : row.1 ≠ next.1)
    (hentry : entry ∈ next :: rest) : row.1 < entry.1 := by
  obtain ⟨hrow, htail⟩ := List.pairwise_cons.mp h
  have hnext := Int.lt_iff_le_and_ne.mpr ⟨hrow next List.mem_cons_self, hne⟩
  rcases List.mem_cons.mp hentry with rfl | hentry
  · exact hnext
  · exact Int.lt_of_lt_of_le hnext ((List.pairwise_cons.mp htail).1 entry hentry)

theorem pairwise_lastOfEach {rows : List (RowId × Definition)}
    (h : rows.Pairwise fun a b => a.1 ≤ b.1) :
    (lastOfEach rows).Pairwise fun a b => a.1 < b.1 := by
  fun_induction lastOfEach rows with
  | case1 => exact List.Pairwise.nil
  | case2 row => exact List.pairwise_singleton _ _
  | case3 row next rest heq ih => exact ih (List.pairwise_cons.mp h).2
  | case4 row next rest hne ih =>
      refine List.pairwise_cons.mpr ⟨?_, ih (List.pairwise_cons.mp h).2⟩
      intro entry hentry
      exact lt_of_mem_tail h hne (mem_of_mem_lastOfEach hentry)

/-- All ids behind the last row with its id are larger. -/
theorem filter_tail_eq_nil {row next : RowId × Definition} {rest : List (RowId × Definition)}
    (h : (row :: next :: rest).Pairwise fun a b => a.1 ≤ b.1) (hne : row.1 ≠ next.1) :
    (next :: rest).filter (·.1 = row.1) = [] := by
  rw [List.filter_eq_nil_iff]
  intro other hother hsame
  have hlt := lt_of_mem_tail h hne hother
  rw [of_decide_eq_true hsame] at hlt
  exact Int.lt_irrefl _ hlt

theorem not_mem_lastOfEach_tail {row next entry : RowId × Definition}
    {rest : List (RowId × Definition)}
    (h : (row :: next :: rest).Pairwise fun a b => a.1 ≤ b.1) (hne : row.1 ≠ next.1)
    (heq : row.1 = entry.1) : entry ∉ lastOfEach (next :: rest) := by
  intro hmem
  have hlt := lt_of_mem_tail h hne (mem_of_mem_lastOfEach hmem)
  rw [heq] at hlt
  exact Int.lt_irrefl _ hlt

/-- Of neighbours with the same id the last is kept. -/
theorem mem_lastOfEach_iff {rows : List (RowId × Definition)}
    (h : rows.Pairwise fun a b => a.1 ≤ b.1) {entry : RowId × Definition} :
    entry ∈ lastOfEach rows ↔ (rows.filter (·.1 = entry.1)).getLast? = some entry := by
  fun_induction lastOfEach rows with
  | case1 => simp
  | case2 row =>
      by_cases heq : row.1 = entry.1
      · simp [heq, eq_comm]
      · have hne : entry ≠ row := fun hsame => heq (hsame ▸ rfl)
        simp [heq, hne]
  | case3 row next rest hsame ih =>
      rw [ih (List.pairwise_cons.mp h).2]
      by_cases heq : row.1 = entry.1
      · have hnext : next.1 = entry.1 := hsame ▸ heq
        simp [heq, hnext, List.getLast?_cons]
      · rw [List.filter_cons_of_neg (a := row) (by simpa using heq)]
  | case4 row next rest hne ih =>
      rw [List.mem_cons]
      by_cases heq : row.1 = entry.1
      · rw [List.filter_cons_of_pos (by simpa using heq), ← heq, filter_tail_eq_nil h hne,
          List.getLast?_singleton, Option.some.injEq, eq_comm (a := row)]
        exact or_iff_left (not_mem_lastOfEach_tail h hne heq)
      · rw [List.filter_cons_of_neg (by simpa using heq), ← ih (List.pairwise_cons.mp h).2]
        exact or_iff_right fun hsame => heq (hsame ▸ rfl)

/-! ## Definitions -/

section

variable (rows : List DefinitionRow)

theorem nodup_files : (extract rows).files.Nodup :=
  nodup_eraseDups _

theorem mem_files {path : String} :
    path ∈ (extract rows).files ↔ ∃ row ∈ rows, row.path = path := by
  simp [extract, List.mem_eraseDups, (perm_byId rows).mem_iff]

theorem pairwise_rows : (extract rows).rows.Pairwise fun a b => a.1 ≤ b.1 :=
  List.pairwise_map.mpr (pairwise_byId rows)

theorem mem_definitions_iff {id : RowId} {d : Definition} :
    (id, d) ∈ (extract rows).definitions ↔
      (definitionRow? rows id).map (definitionOf (extract rows).files) = some d := by
  rw [definitions, mem_lastOfEach_iff (pairwise_rows rows)]
  have hfilter : (extract rows).rows.filter (·.1 = id) =
      (rows.filter (·.id = id)).map fun row => (row.id, definitionOf (extract rows).files row) := by
    rw [← filter_byId, extract, List.filter_map]
    rfl
  rw [hfilter, List.getLast?_map, ← definitionRow?]
  cases hrow : definitionRow? rows id with
  | none => simp
  | some row =>
      obtain ⟨_, rfl⟩ := mem_of_definitionRow? hrow
      simp

theorem pairwise_definitions : (extract rows).definitions.Pairwise fun a b => a.1 < b.1 :=
  pairwise_lastOfEach (pairwise_rows rows)

def ids (inv : Inventory) : List RowId :=
  inv.definitions.map (·.1)

theorem ascending_ids : Ascending (extract rows).ids := by
  refine List.pairwise_map.mpr ((pairwise_definitions rows).imp ?_)
  intro a b hab
  exact Int.compare_eq_lt.mpr hab

theorem nodup_ids : (extract rows).ids.Nodup :=
  List.pairwise_map.mpr ((pairwise_definitions rows).imp Int.ne_of_lt)

theorem mem_ids_iff {id : RowId} : id ∈ (extract rows).ids ↔ ∃ row ∈ rows, row.id = id := by
  rw [← definitionRow?_isSome_iff, Option.isSome_iff_exists]
  constructor
  · intro h
    obtain ⟨⟨_, d⟩, hd, rfl⟩ := List.mem_map.mp h
    obtain ⟨row, hrow, _⟩ := Option.map_eq_some_iff.mp ((mem_definitions_iff rows).mp hd)
    exact ⟨row, hrow⟩
  · rintro ⟨row, hrow⟩
    refine List.mem_map.mpr ⟨(id, definitionOf (extract rows).files row), ?_, rfl⟩
    rw [mem_definitions_iff, hrow, Option.map_some]

theorem getElem?_files {row : DefinitionRow} (h : row ∈ rows) :
    (extract rows).files[(definitionOf (extract rows).files row).file]? = some row.path :=
  List.getElem?_idxOf ((mem_files rows).mpr ⟨row, h, rfl⟩)

theorem file_lt_of_mem_definitions {id : RowId} {d : Definition}
    (h : (id, d) ∈ (extract rows).definitions) : d.file < (extract rows).files.length := by
  obtain ⟨row, hrow, rfl⟩ := Option.map_eq_some_iff.mp ((mem_definitions_iff rows).mp h)
  have hpath := getElem?_files rows (mem_of_definitionRow? hrow).1
  exact (List.getElem?_eq_some_iff.mp hpath).1

theorem candidates_extract (signature : Signature) :
    (extract rows).candidates signature =
      ((byId rows).filter (Signature.canonical ·.signature = signature)).map (·.id) := by
  rw [candidates, extract, List.filter_map, List.map_map]
  rfl

theorem mem_candidates_iff {signature : Signature} {id : RowId} :
    id ∈ (extract rows).candidates signature ↔
      ∃ row ∈ rows, .canonical row.signature = signature ∧ row.id = id := by
  simp [candidates_extract, (perm_byId rows).mem_iff, and_assoc]

theorem mem_signatures_iff {signature : Signature} :
    signature ∈ (extract rows).signatures ↔ ∃ row ∈ rows, .canonical row.signature = signature := by
  rw [signatures, Ascending.mem_ofList]
  simp [extract, definitionOf, (perm_byId rows).mem_iff]

theorem candidates_eq_singleton_iff {signature : Signature} {id : RowId} :
    (extract rows).candidates signature = [id] ↔
      ∃ only, rows.filter (Signature.canonical ·.signature = signature) = [only] ∧
        only.id = id := by
  have hperm := (perm_byId rows).filter (Signature.canonical ·.signature = signature)
  rw [candidates_extract, List.map_eq_singleton_iff]
  constructor
  · rintro ⟨only, hfilter, hid⟩
    rw [hfilter] at hperm
    exact ⟨only, hperm.symm.eq_singleton, hid⟩
  · rintro ⟨only, hfilter, hid⟩
    rw [hfilter] at hperm
    exact ⟨only, hperm.eq_singleton, hid⟩

end

/-! ## Rows with distinct ids -/

theorem ext_of_pairwise_lt {α : Type} {id : α → RowId} {l k : List α}
    (hl : l.Pairwise fun a b => id a < id b) (hk : k.Pairwise fun a b => id a < id b)
    (h : ∀ a, a ∈ l ↔ a ∈ k) : l = k := by
  have hnodup {l : List α} (hl : l.Pairwise fun a b => id a < id b) : l.Nodup := by
    refine hl.imp ?_
    rintro a _ hlt rfl
    exact Int.lt_irrefl _ hlt
  have hperm := (List.perm_ext_iff_of_nodup (hnodup hl) (hnodup hk)).mpr h
  exact hperm.eq_of_pairwise (fun _ _ _ _ hab hba => absurd hab (Int.lt_asymm hba)) hl hk

section

variable {rows : List DefinitionRow}

theorem lastOfEach_of_pairwise {entries : List (RowId × Definition)}
    (h : entries.Pairwise fun a b => a.1 < b.1) : lastOfEach entries = entries := by
  fun_induction lastOfEach entries with
  | case1 => rfl
  | case2 => rfl
  | case3 row next rest heq ih =>
      have hlt := (List.pairwise_cons.mp h).1 next List.mem_cons_self
      exact absurd heq (Int.ne_of_lt hlt)
  | case4 row next rest hne ih => rw [ih (List.pairwise_cons.mp h).2]

theorem pairwise_lt_byId (h : (rows.map (·.id)).Nodup) :
    (byId rows).Pairwise fun a b => a.id < b.id := by
  have hids : ((byId rows).map (·.id)).Nodup := ((perm_byId rows).map (·.id)).nodup_iff.mpr h
  have hne : (byId rows).Pairwise fun a b => a.id ≠ b.id := List.pairwise_map.mp hids
  exact ((pairwise_byId rows).and hne).imp Int.lt_iff_le_and_ne.mpr

/-- Where no id repeats every row is a definition. -/
theorem definitions_extract (h : (rows.map (·.id)).Nodup) :
    (extract rows).definitions =
      (byId rows).map fun row => (row.id, definitionOf (extract rows).files row) :=
  lastOfEach_of_pairwise (List.pairwise_map.mpr (pairwise_lt_byId h))

theorem mem_definitions_of_nodup (h : (rows.map (·.id)).Nodup) {id : RowId} {d : Definition} :
    (id, d) ∈ (extract rows).definitions ↔
      ∃ row ∈ rows, row.id = id ∧ definitionOf (extract rows).files row = d := by
  rw [definitions_extract h, List.mem_map]
  simp only [(perm_byId rows).mem_iff, Prod.mk.injEq]

theorem ascending_candidates (h : (rows.map (·.id)).Nodup) (signature : Signature) :
    Ascending ((extract rows).candidates signature) := by
  rw [candidates_extract]
  refine List.pairwise_map.mpr (((pairwise_lt_byId h).filter _).imp ?_)
  intro a b hab
  exact Int.compare_eq_lt.mpr hab

end

end Inventory

end CallAtlas.Extraction
