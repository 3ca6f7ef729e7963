import CallAtlas.Proofs.Extraction.Assembly
import CallAtlas.Proofs.Snapshot.Lookup

/-!
# Builds that share files

Two builds whose tables have the same rows for some files give the functions of
these files the same keys, and link the same calls between them. What a call of
such a function becomes when it leads to another file is not shared.
-/

namespace CallAtlas

/-- Whether the edge leads only to functions of files that are kept. -/
def Snapshot.leadsTo (s : Snapshot) (keep : String → Bool) (e : Edge) : Bool :=
  e.callee.keys.all fun key => (s.get? key).any fun r => keep (s.pathOf r)

namespace Extraction

open Snapshot (Located)

/-! ## Rows by file -/

/-- The rows of one file by ascending id. -/
def rowsOf (rows : List DefinitionRow) (path : String) : List DefinitionRow :=
  (Inventory.byId rows).filter (·.path = path)

theorem mem_rowsOf {rows : List DefinitionRow} {path : String} {row : DefinitionRow} :
    row ∈ rowsOf rows path ↔ row ∈ rows ∧ row.path = path := by
  rw [rowsOf, List.mem_filter, (Inventory.perm_byId rows).mem_iff, decide_eq_true_iff]

theorem rowsOf_eq {rows others : List DefinitionRow} (hrows : (rows.map (·.id)).Nodup)
    (hothers : (others.map (·.id)).Nodup) {path : String}
    (h : ∀ row, row.path = path → (row ∈ rows ↔ row ∈ others)) :
    rowsOf rows path = rowsOf others path := by
  have hlt : ∀ {rows : List DefinitionRow}, (rows.map (·.id)).Nodup →
      (rowsOf rows path).Pairwise fun a b => a.id < b.id :=
    fun hids => (Inventory.pairwise_lt_byId hids).filter _
  refine Inventory.ext_of_pairwise_lt (hlt hrows) (hlt hothers) fun row => ?_
  rw [mem_rowsOf, mem_rowsOf]
  exact ⟨fun hrow => ⟨(h row hrow.2).mp hrow.1, hrow.2⟩,
    fun hrow => ⟨(h row hrow.2).mpr hrow.1, hrow.2⟩⟩

theorem sublist_filterMap {α β : Type} {f g : α → Option β} {l : List α}
    (h : ∀ a ∈ l, ∀ b, f a = some b → g a = some b) : (l.filterMap f).Sublist (l.filterMap g) := by
  induction l with
  | nil => exact List.Sublist.refl _
  | cons a l ih =>
      have hrest := ih fun other hother => h other (List.mem_cons_of_mem _ hother)
      cases hf : f a with
      | none =>
          rw [List.filterMap_cons_none hf]
          exact hrest.trans ((List.sublist_cons_self a l).filterMap g)
      | some b =>
          rw [List.filterMap_cons_some hf,
            List.filterMap_cons_some (h a List.mem_cons_self b hf)]
          exact hrest.cons_cons b

namespace Tables

variable {t : Tables}

/-- No two rows define a function with the same id. -/
def DistinctIds (t : Tables) : Prop :=
  (t.definitions.map (·.id)).Nodup

/-- No two rows define a function with the same canonical signature. -/
def DistinctSignatures (t : Tables) : Prop :=
  (t.definitions.map (Signature.canonical ·.signature)).Nodup

instance (t : Tables) : Decidable t.DistinctIds :=
  inferInstanceAs (Decidable (List.Nodup _))

instance (t : Tables) : Decidable t.DistinctSignatures :=
  inferInstanceAs (Decidable (List.Nodup _))

/-- No function overrides another. -/
def NoOverrides (t : Tables) : Prop :=
  t.overridesResolved = [] ∧ t.overridesUnresolved = []

/-! ## Functions by rows -/

def sourceOf (row : DefinitionRow) : Key.Source :=
  ⟨row.path, .canonical row.signature, row.lines⟩

/-- The function that a row defines. -/
def functionOf (t : Tables) (row : DefinitionRow) : Located :=
  ⟨⟨row.path, .canonical row.signature, row.lines, t.callGraph.edgesOf row.id⟩, t.key row.id⟩

@[simp] theorem path_functionOf (t : Tables) (row : DefinitionRow) :
    (t.functionOf row).path = row.path :=
  rfl

@[simp] theorem signature_functionOf (t : Tables) (row : DefinitionRow) :
    (t.functionOf row).signature = .canonical row.signature :=
  rfl

@[simp] theorem lines_functionOf (t : Tables) (row : DefinitionRow) :
    (t.functionOf row).lines = row.lines :=
  rfl

@[simp] theorem callees_functionOf (t : Tables) (row : DefinitionRow) :
    (t.functionOf row).callees = t.callGraph.edgesOf row.id :=
  rfl

@[simp] theorem key_functionOf (t : Tables) (row : DefinitionRow) :
    (t.functionOf row).key = t.key row.id :=
  rfl

theorem pathOf_definitionOf {row : DefinitionRow} (h : row ∈ t.definitions) :
    Snapshot.pathIn t.inventory.files (Inventory.definitionOf t.inventory.files row).file =
      row.path := by
  have hfile := Inventory.getElem?_files t.definitions h
  rw [Snapshot.pathIn, inventory, hfile, Option.getD_some]

theorem located_of_assemble (hids : t.DistinctIds) {revision : String}
    {s : Snapshot} (h : t.assemble revision = .ok s) :
    s.located = (Inventory.byId t.definitions).map t.functionOf := by
  have hfiles : s.files = t.inventory.files := (Snapshot.build_eq_ok_iff.mp h).2.1
  have hdefinitions : t.inventory.definitions = (Inventory.byId t.definitions).map fun row =>
      (row.id, Inventory.definitionOf t.inventory.files row) := Inventory.definitions_extract hids
  rw [Snapshot.located, records_eq h, hdefinitions, List.map_map, List.map_map]
  refine List.map_congr_left fun row hrow => ?_
  have hmem := (Inventory.perm_byId t.definitions).mem_iff.mp hrow
  have hpath : Snapshot.pathIn s.files (Inventory.definitionOf t.inventory.files row).file =
      row.path := by rw [hfiles, pathOf_definitionOf hmem]
  exact congrArg (fun path => Located.mk ⟨path, .canonical row.signature, row.lines,
    t.callGraph.edgesOf row.id⟩ (t.key row.id)) hpath

theorem functionsOf_path (hids : t.DistinctIds) {revision : String}
    {s : Snapshot} (h : t.assemble revision = .ok s) (path : String) :
    s.located.filter (·.path = path) = (rowsOf t.definitions path).map t.functionOf := by
  rw [located_of_assemble hids h, List.filter_map]
  rfl

/-! ## Keys by files -/

theorem map_key_byId (hids : t.DistinctIds) :
    (Inventory.byId t.definitions).map (fun row => t.key row.id) =
      Key.assign ((Inventory.byId t.definitions).map sourceOf) := by
  have hkeys := map_key_ids t
  have hdefinitions : t.inventory.definitions = (Inventory.byId t.definitions).map fun row =>
      (row.id, Inventory.definitionOf t.inventory.files row) := Inventory.definitions_extract hids
  have hsources : t.inventory.sources = (Inventory.byId t.definitions).map sourceOf := by
    rw [Inventory.sources, hdefinitions, List.map_map]
    refine List.map_congr_left fun row hrow => ?_
    have hpath := pathOf_definitionOf ((Inventory.perm_byId t.definitions).mem_iff.mp hrow)
    exact congrArg (fun path => Key.Source.mk path (.canonical row.signature) row.lines) hpath
  rw [Inventory.ids, hsources, hdefinitions, List.map_map, List.map_map] at hkeys
  exact hkeys

/-- The keys of the functions of a file are those that they would have without
all other files. -/
theorem map_key_rowsOf (hids : t.DistinctIds) (path : String) :
    (rowsOf t.definitions path).map (fun row => (row, t.key row.id)) =
      (Key.numbered sourceOf (rowsOf t.definitions path)).map fun p =>
        (p.1, Key.derive (sourceOf p.1).path (sourceOf p.1).signature p.2) := by
  have hall : (Inventory.byId t.definitions).map (fun row => (row, t.key row.id)) =
      (Key.numbered sourceOf (Inventory.byId t.definitions)).map fun p =>
        (p.1, Key.derive (sourceOf p.1).path (sourceOf p.1).signature p.2) := by
    rw [← Key.zip_assign, ← map_key_byId hids, List.zip_map_right, List.zip_eq_zipWith,
      List.zipWith_self, List.map_map]
    rfl
  -- namesakes are in the same file, so that leaving out other files moves no number
  have hname : Key.ByName fun s => s.path = path := by
    intro a b h
    have hpath : a.path = b.path := congrArg Prod.fst h
    simp only [hpath]
  have hfilter := congrArg (List.filter fun p => decide (p.1.path = path)) hall
  rw [List.filter_map, List.filter_map] at hfilter
  refine hfilter.trans (congrArg _ (Key.filter_numbered sourceOf hname _))

theorem key_eq_of_path {u : Tables} (ht : t.DistinctIds)
    (hu : u.DistinctIds) {path : String}
    (h : ∀ row, row.path = path → (row ∈ t.definitions ↔ row ∈ u.definitions))
    {row : DefinitionRow} (hrow : row ∈ rowsOf t.definitions path) :
    t.key row.id = u.key row.id := by
  have hmap := map_key_rowsOf ht path
  rw [rowsOf_eq ht hu h, ← map_key_rowsOf hu path] at hmap
  have hpair := List.map_inj_left.mp hmap row (rowsOf_eq ht hu h ▸ hrow)
  exact congrArg Prod.snd hpair

/-! ## Edges without overrides -/

/-- The edge of a call that reaches that definition and no other. -/
def edgeTo (t : Tables) (row : CallRow) (target : RowId) : Edge :=
  ⟨.single (t.key target), row.line, row.col⟩

theorem widen?_eq_none (h : t.NoOverrides) (id : RowId) : t.linker.widen? id = none := by
  have hmembers : t.linker.overrides.members id = [] := by
    refine List.eq_nil_iff_forall_not_mem.mpr fun member hmember => ?_
    have hnone : ∀ a b, ¬ t.Overridden a b := by
      rintro a b (⟨row, hrow, -⟩ | ⟨row, hrow, -⟩)
      · rw [h.1] at hrow
        cases hrow
      · rw [h.2] at hrow
        cases hrow
    rcases mem_members_iff.mp hmember with hover | hover
    · exact hnone _ _ hover
    · exact hnone _ _ hover
  rw [Linker.widen?, hmembers]
  rfl

theorem edge?_eq_some_iff (h : t.NoOverrides) {row : CallRow} {callee : Option RowId}
    {caller : RowId} {e : Edge} :
    t.linker.edge? row callee = some (caller, e) ↔
      row.caller = some caller ∧ t.Known caller ∧
        ∃ target ∈ t.definitions, callee = some target.id ∧ e = t.edgeTo row target.id := by
  rw [Linker.edge?_eq_some_iff, Option.isSome_iff_exists]
  simp only [key?_eq_some_iff, widen?_eq_none h, Option.getD_none, ite_self]
  constructor
  · rintro ⟨hcaller, ⟨_, hknown, -⟩, target, key, hcallee, ⟨⟨d, hd, rfl⟩, rfl⟩, rfl⟩
    exact ⟨hcaller, hknown, d, hd, hcallee, rfl⟩
  · rintro ⟨hcaller, hknown, d, hd, hcallee, rfl⟩
    exact ⟨hcaller, ⟨_, hknown, rfl⟩, d.id, _, hcallee, ⟨⟨d, hd, rfl⟩, rfl⟩, rfl⟩

theorem exists_of_mem_edgesOf (h : t.NoOverrides) {caller : RowId} {e : Edge}
    (he : e ∈ t.callGraph.edgesOf caller) :
    ∃ row, ∃ target ∈ t.definitions, e = t.edgeTo row target.id := by
  obtain ⟨⟨id, e⟩, hmem, rfl⟩ := List.mem_map.mp he
  rcases List.mem_append.mp (List.mem_of_mem_filter hmem) with hresolved | hdeclared
  · obtain ⟨row, _, hedge⟩ := List.mem_filterMap.mp hresolved
    obtain ⟨-, -, target, htarget, -, rfl⟩ := (edge?_eq_some_iff h).mp hedge
    exact ⟨row, target, htarget, rfl⟩
  · obtain ⟨row, _, hedge⟩ := List.mem_filterMap.mp hdeclared
    obtain ⟨-, -, target, htarget, -, rfl⟩ := (edge?_eq_some_iff h).mp hedge
    exact ⟨row, target, htarget, rfl⟩

/-- The edge of a row that calls a definition in a file that is kept, where
`callee` finds the definition. -/
def keptEdge? (t : Tables) (keep : String → Bool) (callee : CallRow → Option RowId)
    (row : CallRow) : Option Edge :=
  (callee row).bind fun id =>
    (t.definitions.find? fun d => d.id = id ∧ keep d.path).map fun d => t.edgeTo row d.id

theorem keptEdge?_eq_some_iff {keep : String → Bool} {callee : CallRow → Option RowId}
    {row : CallRow} {e : Edge} :
    t.keptEdge? keep callee row = some e ↔
      ∃ target ∈ t.definitions, callee row = some target.id ∧ keep target.path ∧
        e = t.edgeTo row target.id := by
  rw [keptEdge?, Option.bind_eq_some_iff]
  constructor
  · rintro ⟨id, hcallee, hedge⟩
    obtain ⟨d, hfind, rfl⟩ := Option.map_eq_some_iff.mp hedge
    obtain ⟨rfl, hkeep⟩ : d.id = id ∧ keep d.path := by simpa using List.find?_some hfind
    exact ⟨d, List.mem_of_find?_eq_some hfind, hcallee, hkeep, rfl⟩
  · rintro ⟨target, htarget, hcallee, hkeep, rfl⟩
    refine ⟨target.id, hcallee, ?_⟩
    have hfound : (t.definitions.find? fun d => d.id = target.id ∧ keep d.path).isSome :=
      List.find?_isSome.mpr ⟨target, htarget, decide_eq_true ⟨rfl, hkeep⟩⟩
    obtain ⟨d, hd⟩ := Option.isSome_iff_exists.mp hfound
    obtain ⟨hid, -⟩ : d.id = target.id ∧ keep d.path := by simpa using List.find?_some hd
    rw [hd, Option.map_some, hid]

def keptEdgesOf (t : Tables) (keep : String → Bool) (caller : RowId) : List Edge :=
  (t.callsResolved.filter (·.caller = some caller)).filterMap (t.keptEdge? keep (·.callee)) ++
    (t.callsUnresolved.filter (·.caller = some caller)).filterMap
      (t.keptEdge? keep fun row => row.callee.bind t.linker.declarations.resolve)

section

variable (hids : t.DistinctIds) {revision : String} {s : Snapshot}
  (h : t.assemble revision = .ok s) (keep : String → Bool)

include hids h

/-- Where the edge of a call leads. -/
theorem leadsTo_edgeTo (row : CallRow) {target : DefinitionRow} (htarget : target ∈ t.definitions) :
    s.leadsTo keep (t.edgeTo row target.id) = keep target.path := by
  have hmem : t.functionOf target ∈ s.located := by
    rw [located_of_assemble hids h]
    exact List.mem_map_of_mem ((Inventory.perm_byId t.definitions).mem_iff.mpr htarget)
  obtain ⟨r, hr, hlocate⟩ := List.mem_map.mp hmem
  have hkey : r.key = t.key target.id := congrArg Located.key hlocate
  have hpath : s.pathOf r = target.path := congrArg (·.path) hlocate
  have hget : s.get? (t.key target.id) = some r :=
    (Snapshot.build_eq_ok_iff.mp h).1.get?_eq_some_iff.mpr ⟨hr, hkey⟩
  rw [Snapshot.leadsTo, edgeTo]
  show ([t.key target.id].all fun key => (s.get? key).any fun r => keep (s.pathOf r)) = _
  rw [List.all_cons, List.all_nil, Bool.and_true, hget, Option.any_some, hpath]

theorem filter_edges (hover : t.NoOverrides) {caller : RowId} (hcaller : t.Known caller)
    (callee : CallRow → Option RowId) (rows : List CallRow) :
    (((rows.filterMap fun row => t.linker.edge? row (callee row)).filter (·.1 = caller)).map
        (·.2)).filter (s.leadsTo keep) =
      (rows.filter (·.caller = some caller)).filterMap (t.keptEdge? keep callee) := by
  rw [List.filter_filterMap, List.map_filterMap, List.filter_filterMap, List.filterMap_filter]
  refine List.filterMap_congr fun row _ => Option.ext fun e => ?_
  rw [Option.filter_eq_some_iff, Option.map_eq_some_iff]
  simp only [Option.filter_eq_some_iff, decide_eq_true_iff]
  constructor
  · rintro ⟨⟨⟨_, e'⟩, ⟨hedge, rfl⟩, rfl⟩, hleads⟩
    obtain ⟨hrow, -, target, htarget, hcallee, rfl⟩ := (edge?_eq_some_iff hover).mp hedge
    rw [leadsTo_edgeTo hids h keep row htarget] at hleads
    rw [if_pos hrow]
    exact keptEdge?_eq_some_iff.mpr ⟨target, htarget, hcallee, hleads, rfl⟩
  · intro hedge
    split at hedge
    case isFalse => cases hedge
    case isTrue hrow =>
      obtain ⟨target, htarget, hcallee, hkeep, rfl⟩ := keptEdge?_eq_some_iff.mp hedge
      refine ⟨⟨(caller, _), ⟨?_, rfl⟩, rfl⟩, (leadsTo_edgeTo hids h keep row htarget).trans hkeep⟩
      exact (edge?_eq_some_iff hover).mpr ⟨hrow, hcaller, target, htarget, hcallee, rfl⟩

theorem filter_edgesOf (hover : t.NoOverrides) {caller : RowId} (hcaller : t.Known caller) :
    (t.callGraph.edgesOf caller).filter (s.leadsTo keep) = t.keptEdgesOf keep caller := by
  rw [CallGraph.edgesOf, callGraph, Linker.graph, List.filter_append, List.map_append,
    List.filter_append, keptEdgesOf, ← filter_edges hids h keep hover hcaller,
    ← filter_edges hids h keep hover hcaller]
  rfl

end

/-! ## What two builds share -/

/-- The tables have the same rows for the files that are kept: the same
definitions, the same calls of each of them, and the same declarations for
these calls. -/
structure Agree (keep : String → Bool) (t u : Tables) : Prop where
  definitions : ∀ row, keep row.path → (row ∈ t.definitions ↔ row ∈ u.definitions)
  callsResolved : ∀ row ∈ t.definitions, keep row.path →
    t.callsResolved.filter (·.caller = some row.id) =
      u.callsResolved.filter (·.caller = some row.id)
  callsUnresolved : ∀ row ∈ t.definitions, keep row.path →
    t.callsUnresolved.filter (·.caller = some row.id) =
      u.callsUnresolved.filter (·.caller = some row.id)
  declarations : ∀ row ∈ t.definitions, keep row.path →
    ∀ call ∈ t.callsUnresolved, call.caller = some row.id →
      ∀ declaration, call.callee = some declaration →
        t.declarations.filter (·.id = declaration) = u.declarations.filter (·.id = declaration)

section

variable {keep : String → Bool} {u : Tables}

theorem Agree.symm (h : Agree keep t u) : Agree keep u t where
  definitions row hkeep := (h.definitions row hkeep).symm
  callsResolved row hrow hkeep :=
    (h.callsResolved row ((h.definitions row hkeep).mpr hrow) hkeep).symm
  callsUnresolved row hrow hkeep :=
    (h.callsUnresolved row ((h.definitions row hkeep).mpr hrow) hkeep).symm
  declarations row hrow hkeep call hcall hcaller declaration hcallee := by
    have hrow := (h.definitions row hkeep).mpr hrow
    have hmem : call ∈ u.callsUnresolved.filter (·.caller = some row.id) :=
      List.mem_filter.mpr ⟨hcall, by simpa using hcaller⟩
    rw [← h.callsUnresolved row hrow hkeep] at hmem
    exact (h.declarations row hrow hkeep call (List.mem_of_mem_filter hmem) hcaller declaration
      hcallee).symm

theorem filter_signature_eq (h : u.DistinctSignatures) {row : DefinitionRow}
    (hrow : row ∈ u.definitions) :
    u.definitions.filter (Signature.canonical ·.signature = .canonical row.signature) = [row] :=
  filter_eq_singleton h hrow

/-- A declaration that stands for a definition in a file that is kept stands for
it in the other build too. -/
theorem resolve_of_agree (ht : t.DistinctIds) (hu : u.DistinctSignatures) {declaration : RowId}
    (hrows : t.declarations.filter (·.id = declaration) =
      u.declarations.filter (·.id = declaration))
    {target : DefinitionRow} (htarget : target ∈ t.definitions) (htarget' : target ∈ u.definitions)
    (h : t.Resolves declaration target.id) : u.Resolves declaration target.id := by
  obtain ⟨row, hrow, hbound⟩ := h
  refine ⟨row, hrows ▸ hrow, ?_⟩
  rcases hbound with hdefinition | ⟨hnone, only, honly, hid⟩
  · exact Or.inl hdefinition
  · have hmem : only ∈ t.definitions.filter
        (Signature.canonical ·.signature = .canonical row.signature) :=
      honly ▸ List.mem_singleton_self only
    obtain ⟨hdefined, hsignature⟩ := List.mem_filter.mp hmem
    obtain rfl := List.inj_on_of_nodup_map ht hdefined htarget hid
    have hsame : Signature.canonical only.signature = .canonical row.signature := by
      simpa using hsignature
    exact Or.inr ⟨hnone, only, hsame ▸ filter_signature_eq hu htarget', rfl⟩

theorem Agree.key_eq (h : Agree keep t u) (ht : t.DistinctIds) (hu : u.DistinctIds)
    {row : DefinitionRow} (hrow : row ∈ t.definitions) (hkeep : keep row.path) :
    t.key row.id = u.key row.id :=
  key_eq_of_path ht hu (fun other hpath => h.definitions other (hpath ▸ hkeep))
    (mem_rowsOf.mpr ⟨hrow, rfl⟩)

theorem Agree.keptEdge? (h : Agree keep t u) (ht : t.DistinctIds) (hu : u.DistinctIds)
    {callee callee' : CallRow → Option RowId} {call : CallRow}
    (hcallee : ∀ target ∈ t.definitions, target ∈ u.definitions →
      callee call = some target.id → callee' call = some target.id)
    {e : Edge} (he : t.keptEdge? keep callee call = some e) :
    u.keptEdge? keep callee' call = some e := by
  obtain ⟨target, htarget, hfound, hkeep, rfl⟩ := keptEdge?_eq_some_iff.mp he
  have htarget' := (h.definitions target hkeep).mp htarget
  refine keptEdge?_eq_some_iff.mpr
    ⟨target, htarget', hcallee target htarget htarget' hfound, hkeep, ?_⟩
  rw [edgeTo, edgeTo, h.key_eq ht hu htarget hkeep]

/-- The edges between functions of files that are kept stay when the other
build has no two functions with one signature. -/
theorem Agree.sublist_keptEdgesOf (h : Agree keep t u) (ht : t.DistinctIds) (hu : u.DistinctIds)
    (hsignatures : u.DistinctSignatures) {row : DefinitionRow} (hrow : row ∈ t.definitions)
    (hkeep : keep row.path) :
    (t.keptEdgesOf keep row.id).Sublist (u.keptEdgesOf keep row.id) := by
  rw [keptEdgesOf, keptEdgesOf, ← h.callsResolved row hrow hkeep,
    ← h.callsUnresolved row hrow hkeep]
  refine List.Sublist.append ?_ ?_
  · exact sublist_filterMap fun call _ e he =>
      h.keptEdge? ht hu (fun target _ _ hcallee => hcallee) he
  · refine sublist_filterMap fun call hcall e he => h.keptEdge? ht hu ?_ he
    intro target htarget htarget' hcallee
    obtain ⟨hmem, hcaller⟩ := List.mem_filter.mp hcall
    obtain ⟨declaration, hdeclaration, hresolve⟩ := Option.bind_eq_some_iff.mp hcallee
    have hrows := h.declarations row hrow hkeep call hmem (of_decide_eq_true hcaller) declaration
      hdeclaration
    exact Option.bind_eq_some_iff.mpr ⟨declaration, hdeclaration, resolve_eq_some_iff.mpr
      (resolve_of_agree ht hsignatures hrows htarget htarget' (resolve_eq_some_iff.mp hresolve))⟩

theorem Agree.keptEdgesOf_eq (h : Agree keep t u) (ht : t.DistinctIds) (hu : u.DistinctIds)
    (htsignatures : t.DistinctSignatures) (husignatures : u.DistinctSignatures)
    {row : DefinitionRow} (hrow : row ∈ t.definitions) (hkeep : keep row.path) :
    t.keptEdgesOf keep row.id = u.keptEdgesOf keep row.id :=
  (h.sublist_keptEdgesOf ht hu husignatures hrow hkeep).antisymm
    (h.symm.sublist_keptEdgesOf hu ht htsignatures ((h.definitions row hkeep).mp hrow) hkeep)

end

/-! ## Builds of some files -/

/-- What a build of these files alone records: the definitions of the other
files are missing. -/
def within (t : Tables) (paths : List String) : Tables :=
  { t with definitions := t.definitions.filter (·.path ∈ paths) }

section

variable {paths : List String}

theorem mem_within {row : DefinitionRow} :
    row ∈ (t.within paths).definitions ↔ row ∈ t.definitions ∧ row.path ∈ paths := by
  rw [within, List.mem_filter, decide_eq_true_iff]

theorem agree_within (t : Tables) (paths : List String) :
    Agree (· ∈ paths) (t.within paths) t where
  definitions _ hkeep := mem_within.trans (and_iff_left (of_decide_eq_true hkeep))
  callsResolved _ _ _ := rfl
  callsUnresolved _ _ _ := rfl
  declarations _ _ _ _ _ _ _ _ := rfl

theorem distinctIds_within (h : t.DistinctIds) : (t.within paths).DistinctIds :=
  h.sublist (List.filter_sublist.map _)

theorem distinctSignatures_within (h : t.DistinctSignatures) :
    (t.within paths).DistinctSignatures :=
  h.sublist (List.filter_sublist.map _)

theorem noOverrides_within (h : t.NoOverrides) : (t.within paths).NoOverrides :=
  h

end

end Tables

end Extraction

end CallAtlas
