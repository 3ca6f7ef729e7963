import CallAtlas.Proofs.Extraction.Content
import Mathlib.Data.List.Induction

/-!
# The indexes of an inventory

An inventory is looked into by file, by row id and by signature. The three indexes
can be grown together while the rows are read one by one; at any time they hold what
the rows so far say. Where no id repeats they fit each other: every row is one
definition, it stands in the file that the row names, and it is found under its
signature and no other.
-/

namespace CallAtlas.Extraction

/-! ## Growing indexes -/

/-- The indexes while rows are read. -/
structure Indexes where
  files : List String
  places : Std.TreeMap String Nat
  definitions : Std.TreeMap RowId Definition
  bySignature : Std.TreeMap Signature (List RowId)

namespace Indexes

def empty : Indexes :=
  ⟨[], ∅, ∅, ∅⟩

/-- Finds the place of a file. A new file is put behind the others. -/
def place (x : Indexes) (path : String) : Nat × Indexes :=
  match x.places[path]? with
  | some place => (place, x)
  | none =>
      (x.files.length, { x with
        files := x.files ++ [path]
        places := x.places.insert path x.files.length })

/-- Takes up a definition, in the place of another one with the same id. -/
def enter (x : Indexes) (id : RowId) (d : Definition) : Indexes :=
  { x with
    definitions := x.definitions.insert id d
    bySignature := x.bySignature.alter d.signature fun ids? => some (ids?.getD [] ++ [id]) }

def read (x : Indexes) (row : DefinitionRow) : Indexes :=
  let (place, x) := x.place row.path
  x.enter row.id ⟨place, .canonical row.signature, row.lines⟩

def ofRows (rows : List DefinitionRow) : Indexes :=
  rows.foldl read empty

/-! ## What growing indexes hold -/

/-- The files are those of the paths so far, and each has its place. -/
structure Filed (x : Indexes) (paths : List String) : Prop where
  files : x.files = paths.eraseDups
  places : ∀ path : String, x.places[path]? = x.files.idxOf? path

/-- The ids of the rows with that signature. -/
def bearers (rows : List DefinitionRow) (s : Signature) : List RowId :=
  (rows.filter (Signature.canonical ·.signature = s)).map (·.id)

/-- The indexes hold what the rows so far say. -/
structure Hold (x : Indexes) (rows : List DefinitionRow) : Prop extends
    Filed x (rows.map (·.path)) where
  definitions : ∀ id : RowId, x.definitions[id]? =
    (definitionRow? rows id).map (Inventory.definitionOf x.files)
  mem_bySignature : ∀ s : Signature, s ∈ x.bySignature ↔ bearers rows s ≠ []
  bySignature : ∀ s, x.bySignature.getD s [] = bearers rows s

section

variable {x : Indexes} {paths : List String} {path : String} {rows : List DefinitionRow}

theorem idxOf?_append_singleton {files : List String} (h : path ∉ files) (other : String) :
    (files ++ [path]).idxOf? other =
      if path = other then some files.length else files.idxOf? other := by
  rw [List.idxOf?, List.findIdx?_append, ← List.idxOf?]
  by_cases hother : path = other
  · subst hother
    rw [List.idxOf?_eq_none_iff.mpr h, if_pos rfl]
    simp
  · rw [if_neg hother]
    simp [hother]

theorem Filed.place (h : x.Filed paths) (path : String) :
    (x.place path).2.Filed (paths ++ [path]) ∧
      (x.place path).1 = (x.place path).2.files.idxOf path ∧
      x.files <+: (x.place path).2.files := by
  have hmem : path ∈ x.files ↔ path ∈ paths := by rw [h.files, List.mem_eraseDups]
  rw [Indexes.place, h.places path]
  cases hfound : x.files.idxOf? path with
  | some place =>
      have hold : path ∈ x.files := List.isSome_idxOf?.mp (by rw [hfound]; rfl)
      refine ⟨⟨?_, h.places⟩, ?_, List.prefix_rfl⟩
      · rw [eraseDups_append_singleton, if_pos (hmem.mp hold), List.append_nil, h.files]
      · rw [List.idxOf_eq_getD_idxOf?, hfound, Option.getD_some]
  | none =>
      have hnew : path ∉ x.files := List.idxOf?_eq_none_iff.mp hfound
      refine ⟨⟨?_, fun other => ?_⟩, ?_, List.prefix_append _ _⟩
      · rw [eraseDups_append_singleton, if_neg (mt hmem.mpr hnew), h.files]
      · dsimp only
        rw [Std.TreeMap.getElem?_insert, idxOf?_append_singleton hnew, h.places]
        simp only [Std.LawfulEqCmp.compare_eq_iff_eq]
      · rw [List.idxOf_append_of_notMem hnew, List.idxOf_cons_self]
        rfl

@[simp] theorem definitions_place : (x.place path).2.definitions = x.definitions := by
  rw [place]
  split <;> rfl

@[simp] theorem bySignature_place : (x.place path).2.bySignature = x.bySignature := by
  rw [place]
  split <;> rfl

theorem definitionOf_of_added {files more : List String} {row : DefinitionRow}
    (h : files <+: more) (hrow : row.path ∈ files) :
    Inventory.definitionOf more row = Inventory.definitionOf files row := by
  obtain ⟨new, rfl⟩ := h
  rw [Inventory.definitionOf, List.idxOf_append_of_mem hrow]
  rfl

theorem definitionRow?_append_singleton (rows : List DefinitionRow) (row : DefinitionRow)
    (id : RowId) : definitionRow? (rows ++ [row]) id =
      if row.id = id then some row else definitionRow? rows id := by
  rw [definitionRow?, List.filter_append]
  by_cases h : row.id = id <;> simp [h, definitionRow?]

theorem bearers_append_singleton (rows : List DefinitionRow) (row : DefinitionRow)
    (s : Signature) : bearers (rows ++ [row]) s =
      bearers rows s ++ if .canonical row.signature = s then [row.id] else [] := by
  rw [bearers, List.filter_append, List.map_append]
  by_cases h : .canonical row.signature = s <;> simp [h, bearers]

theorem hold_empty : empty.Hold [] := by
  refine ⟨⟨rfl, fun path => ?_⟩, fun id => ?_, fun s => ?_, fun s => ?_⟩ <;>
    simp [empty, bearers, definitionRow?]

theorem Hold.path_mem (h : x.Hold rows) {row : DefinitionRow} (hrow : row ∈ rows) :
    row.path ∈ x.files := by
  rw [h.files, List.mem_eraseDups]
  exact List.mem_map_of_mem hrow

theorem definitions_read (h : x.Filed paths) (row : DefinitionRow) :
    (x.read row).definitions =
      x.definitions.insert row.id (Inventory.definitionOf (x.read row).files row) := by
  obtain ⟨-, hplace, -⟩ := h.place row.path
  show (x.place row.path).2.definitions.insert row.id ⟨(x.place row.path).1, _, _⟩ = _
  rw [definitions_place, hplace]
  rfl

theorem bySignature_read (row : DefinitionRow) :
    (x.read row).bySignature = x.bySignature.alter (.canonical row.signature)
      fun ids? => some (ids?.getD [] ++ [row.id]) := by
  show (x.place row.path).2.bySignature.alter (.canonical row.signature) _ = _
  rw [bySignature_place]

theorem Hold.read (h : x.Hold rows) (row : DefinitionRow) : (x.read row).Hold (rows ++ [row]) := by
  obtain ⟨hfiles, -, hprefix⟩ := h.toFiled.place row.path
  refine ⟨⟨?_, hfiles.places⟩, fun id => ?_, fun s => ?_, fun s => ?_⟩
  · rw [List.map_append]
    exact hfiles.files
  · rw [definitions_read h.toFiled, Std.TreeMap.getElem?_insert, definitionRow?_append_singleton]
    by_cases hid : row.id = id
    · simp [hid]
    · simp only [Std.LawfulEqCmp.compare_eq_iff_eq, if_neg hid, h.definitions]
      refine Option.map_congr fun old hold => ?_
      exact (definitionOf_of_added hprefix (h.path_mem (mem_of_definitionRow? hold).1)).symm
  · rw [bySignature_read, Std.TreeMap.mem_alter, bearers_append_singleton]
    by_cases hs : .canonical row.signature = s
    · simp [hs]
    · simp [hs, h.mem_bySignature]
  · rw [bySignature_read, Std.TreeMap.getD_alter, bearers_append_singleton, ← h.bySignature]
    by_cases hs : .canonical row.signature = s
    · simp [hs, Std.TreeMap.getD_eq_getD_getElem?]
    · simp [hs]

theorem hold_ofRows (rows : List DefinitionRow) : (ofRows rows).Hold rows := by
  induction rows using List.reverseRecOn with
  | nil => exact hold_empty
  | append_singleton rows row ih =>
      rw [ofRows, List.foldl_append]
      exact ih.read row

end

/-! ## The inventory -/

/-- These are the indexes of the inventory. -/
structure AreOf (x : Indexes) (inv : Inventory) : Prop where
  files : x.files = inv.files
  definitions : x.definitions.toList = inv.definitions
  candidates : ∀ s, x.bySignature.getD s [] = inv.candidates s
  signatures : x.bySignature.keys = inv.signatures

theorem toList_definitions (rows : List DefinitionRow) :
    (ofRows (Inventory.byId rows)).definitions.toList = (Inventory.extract rows).definitions := by
  have h := hold_ofRows (Inventory.byId rows)
  have hleft : (ofRows (Inventory.byId rows)).definitions.toList.Pairwise fun a b => a.1 < b.1 :=
    Std.TreeMap.ordered_keys_toList.imp Int.compare_eq_lt.mp
  refine Inventory.ext_of_pairwise_lt hleft (Inventory.pairwise_definitions rows) ?_
  rintro ⟨id, d⟩
  rw [Std.TreeMap.mem_toList_iff_getElem?_eq_some, h.definitions, Inventory.definitionRow?_byId,
    Inventory.mem_definitions_iff, h.files]
  rfl

theorem bearers_eq_nil_iff {rows : List DefinitionRow} {s : Signature} :
    bearers rows s = [] ↔ ∀ row ∈ rows, .canonical row.signature ≠ s := by
  simp [bearers]

/-- Read by ascending id, the rows have the indexes of their inventory. -/
theorem areOf_extract (rows : List DefinitionRow) :
    (ofRows (Inventory.byId rows)).AreOf (Inventory.extract rows) := by
  have h := hold_ofRows (Inventory.byId rows)
  refine ⟨h.files, toList_definitions rows, fun s => ?_, ?_⟩
  · rw [h.bySignature, Inventory.candidates_extract, bearers]
  · refine Ascending.ext Std.TreeMap.ordered_keys (Ascending.ofList_ascending _) fun s => ?_
    rw [Std.TreeMap.mem_keys, h.mem_bySignature, ne_eq, bearers_eq_nil_iff]
    refine Iff.trans ?_ (Inventory.mem_signatures_iff rows).symm
    simp [(Inventory.perm_byId rows).mem_iff]

end Indexes

/-! ## Indexes that fit each other -/

namespace Inventory

/-- Some row of the path has a smaller id than all rows of the other path. -/
def FirstBefore (rows : List DefinitionRow) (path other : String) : Prop :=
  ∃ first ∈ rows, first.path = path ∧ ∀ row ∈ rows, row.path = other → first.id < row.id

/-- What an entry of the definitions says. -/
def contentOf (inv : Inventory) (entry : RowId × Definition) :
    RowId × String × Signature × Interval :=
  (entry.1, inv.pathOf entry.2, entry.2.signature, entry.2.lines)

/-- The inventory has exactly what the rows say. -/
structure Exact (inv : Inventory) (rows : List DefinitionRow) : Prop where
  nodup_files : inv.files.Nodup
  mem_files : ∀ path, path ∈ inv.files ↔ ∃ row ∈ rows, row.path = path
  /-- By the smallest id of their rows. -/
  ordered_files : inv.files.Pairwise (FirstBefore rows)
  filled : ∀ place < inv.files.length, ∃ entry ∈ inv.definitions, entry.2.file = place
  file_lt : ∀ entry ∈ inv.definitions, entry.2.file < inv.files.length
  ascending : inv.definitions.Pairwise fun a b => a.1 < b.1
  contents : (inv.definitions.map inv.contentOf).Perm (rows.map (·.content))
  ascending_candidates : ∀ s, Ascending (inv.candidates s)
  mem_candidates : ∀ s id, id ∈ inv.candidates s ↔
    ∃ d, (id, d) ∈ inv.definitions ∧ d.signature = s
  mem_signatures : ∀ s, s ∈ inv.signatures ↔ inv.candidates s ≠ []
  partition : (inv.signatures.flatMap inv.candidates).Perm (rows.map (·.id))

variable {rows : List DefinitionRow}

theorem pairwise_firstBefore (h : rows.Pairwise fun a b => a.id < b.id) :
    (rows.map (·.path)).eraseDups.Pairwise (FirstBefore rows) := by
  induction rows using List.reverseRecOn with
  | nil => exact List.Pairwise.nil
  | append_singleton rows row ih =>
      obtain ⟨hrows, -, hlast⟩ := List.pairwise_append.mp h
      have hlt : ∀ other ∈ rows, other.id < row.id :=
        fun other hother => hlast other hother row List.mem_cons_self
      have hkept {path other : String} (hbefore : FirstBefore rows path other) :
          FirstBefore (rows ++ [row]) path other := by
        obtain ⟨first, hfirst, hpath, hall⟩ := hbefore
        refine ⟨first, List.mem_append_left _ hfirst, hpath, fun r hr hother => ?_⟩
        rcases List.mem_append.mp hr with hr | hr
        · exact hall r hr hother
        · rw [List.mem_singleton.mp hr]
          exact hlt first hfirst
      rw [List.map_append, List.map_singleton, eraseDups_append_singleton]
      refine List.pairwise_append.mpr ⟨(ih hrows).imp hkept, by split <;> simp, ?_⟩
      intro path hpath other hother
      split at hother
      · cases hother
      · rename_i hnew
        obtain rfl := List.mem_singleton.mp hother
        obtain ⟨first, hfirst, rfl⟩ := List.mem_map.mp (List.mem_eraseDups.mp hpath)
        refine ⟨first, List.mem_append_left _ hfirst, rfl, fun r hr hsame => ?_⟩
        rcases List.mem_append.mp hr with hr | hr
        · exact absurd (hsame ▸ List.mem_map_of_mem hr) hnew
        · rw [List.mem_singleton.mp hr]
          exact hlt first hfirst

theorem contentOf_definitionOf {row : DefinitionRow} (hrow : row ∈ rows) :
    (extract rows).contentOf (row.id, definitionOf (extract rows).files row) = row.content := by
  rw [contentOf, pathOf, getElem?_files rows hrow, Option.getD_some]
  rfl

theorem perm_contents (h : (rows.map (·.id)).Nodup) :
    ((extract rows).definitions.map (extract rows).contentOf).Perm (rows.map (·.content)) := by
  have hcontents : (extract rows).definitions.map (extract rows).contentOf =
      (byId rows).map (·.content) := by
    rw [definitions_extract h, List.map_map]
    refine List.map_congr_left fun row hrow => ?_
    exact contentOf_definitionOf ((perm_byId rows).mem_iff.mp hrow)
  rw [hcontents]
  exact (perm_byId rows).map _

/-- Every row is found under its signature and no other. -/
theorem perm_candidates (h : (rows.map (·.id)).Nodup) :
    ((extract rows).signatures.flatMap (extract rows).candidates).Perm (rows.map (·.id)) := by
  refine (List.perm_ext_iff_of_nodup (List.nodup_flatMap.mpr ⟨fun s _ => ?_, ?_⟩) h).mpr ?_
  · exact (ascending_candidates h s).nodup
  · refine (Ascending.ofList_ascending _).nodup.imp fun {s s'} hne id hid hid' => ?_
    obtain ⟨row, hrow, hs, rfl⟩ := (mem_candidates_iff rows).mp hid
    obtain ⟨other, hother, hs', hsame⟩ := (mem_candidates_iff rows).mp hid'
    obtain rfl := List.inj_on_of_nodup_map h hother hrow hsame
    exact hne (hs.symm.trans hs')
  · intro id
    simp only [List.mem_flatMap, mem_candidates_iff, mem_signatures_iff, List.mem_map]
    constructor
    · rintro ⟨_, -, row, hrow, -, hid⟩
      exact ⟨row, hrow, hid⟩
    · rintro ⟨row, hrow, hid⟩
      exact ⟨_, ⟨row, hrow, rfl⟩, row, hrow, rfl, hid⟩

theorem exists_of_lt_files (h : (rows.map (·.id)).Nodup) {place : Nat}
    (hplace : place < (extract rows).files.length) :
    ∃ entry ∈ (extract rows).definitions, entry.2.file = place := by
  obtain ⟨row, hrow, hpath⟩ := (mem_files rows).mp (List.getElem_mem hplace)
  refine ⟨(row.id, _), (mem_definitions_of_nodup h).mpr ⟨row, hrow, rfl, rfl⟩, ?_⟩
  rw [definitionOf, hpath, (nodup_files rows).idxOf_getElem]

/-- Where no id repeats an inventory has exactly what the rows say, and its indexes
are those that grow while the rows are read. -/
theorem exact_extract (h : (rows.map (·.id)).Nodup) :
    (extract rows).Exact rows ∧ (Indexes.ofRows (byId rows)).AreOf (extract rows) := by
  refine ⟨?_, Indexes.areOf_extract rows⟩
  constructor
  case nodup_files => exact nodup_files rows
  case mem_files => exact fun path => mem_files rows
  case ordered_files =>
    refine (pairwise_firstBefore (pairwise_lt_byId h)).imp fun hbefore => ?_
    simpa only [FirstBefore, (perm_byId rows).mem_iff] using hbefore
  case filled => exact fun place hplace => exists_of_lt_files h hplace
  case file_lt => exact fun entry hentry => file_lt_of_mem_definitions rows hentry
  case ascending => exact pairwise_definitions rows
  case contents => exact perm_contents h
  case ascending_candidates => exact ascending_candidates h
  case mem_candidates =>
    intro s id
    rw [mem_candidates_iff]
    constructor
    · rintro ⟨row, hrow, hs, hid⟩
      exact ⟨_, (mem_definitions_of_nodup h).mpr ⟨row, hrow, hid, rfl⟩, hs⟩
    · rintro ⟨d, hd, hs⟩
      obtain ⟨row, hrow, hid, rfl⟩ := (mem_definitions_of_nodup h).mp hd
      exact ⟨row, hrow, hs, hid⟩
  case mem_signatures =>
    intro s
    rw [mem_signatures_iff, ne_eq, List.eq_nil_iff_forall_not_mem]
    simp [mem_candidates_iff]
  case partition => exact perm_candidates h

/-- Rows out of order, two of which spell one signature in two ways. -/
def sampleRows : List DefinitionRow :=
  [⟨2, "b.cpp", "g(int, int)", ⟨3, 9⟩⟩, ⟨1, "a.cpp", "f(int *)", ⟨1, 5⟩⟩,
    ⟨3, "a.cpp", "g(int,int)", ⟨11, 14⟩⟩]

theorem exact_extract_sample :
    (sampleRows.map (·.id)).Nodup ∧ (extract sampleRows).Exact sampleRows ∧
      (Indexes.ofRows (byId sampleRows)).AreOf (extract sampleRows) ∧
      (extract sampleRows).files = ["a.cpp", "b.cpp"] ∧
      (extract sampleRows).candidates (.canonical "g(int,  int)") = [2, 3] := by
  have h : (sampleRows.map (·.id)).Nodup := by decide
  exact ⟨h, (exact_extract h).1, (exact_extract h).2, by cbv, by cbv⟩

end Inventory

end CallAtlas.Extraction
