import CallAtlas.Proofs.Extraction.Assembly

/-!
# No edge is lost

Every row of the call tables is kept or dropped, and each kept row is an edge of the
snapshot. The counts of a call graph are those of a loop that reads row by row and
counts along the way. The edges are then handed out caller by caller, so that nothing
is lost as long as each caller is served; and every caller of an edge is a known
function, for which a record is made.
-/

namespace CallAtlas

namespace Extraction

/-! ## Counting along the way -/

/-- The graph and the counts while calls are read. -/
structure Tally where
  graph : CallGraph
  counts : CallCounts
deriving DecidableEq, Repr

namespace Tally

def start : Tally :=
  ⟨⟨[]⟩, ⟨0, 0, 0, 0⟩⟩

/-- Takes up what a row is linked to, if anything; `keep` counts the row then. -/
def link (tally : Tally) (keep : CallCounts → CallCounts) : Option (RowId × Edge) → Tally
  | none => { tally with counts.dropped := tally.counts.dropped + 1 }
  | some edge =>
      let counts := if edge.2.callee.isAmbiguous then
        { tally.counts with expanded := tally.counts.expanded + 1 } else tally.counts
      ⟨⟨tally.graph.edges ++ [edge]⟩, keep counts⟩

def linkResolved (l : Linker) (tally : Tally) (row : CallRow) : Tally :=
  tally.link (fun counts => { counts with resolved := counts.resolved + 1 }) (l.resolvedEdge? row)

def linkDeclared (l : Linker) (tally : Tally) (row : CallRow) : Tally :=
  tally.link (fun counts => { counts with viaDeclaration := counts.viaDeclaration + 1 })
    (l.declaredEdge? row)

def ofRows (l : Linker) (resolved unresolved : List CallRow) : Tally :=
  unresolved.foldl (linkDeclared l) (resolved.foldl (linkResolved l) start)

section

variable (l : Linker) (resolved unresolved : List CallRow) (row : CallRow)

theorem linkResolved_eq :
    linkResolved l ⟨l.graph resolved [], l.counts resolved []⟩ row =
      ⟨l.graph (resolved ++ [row]) [], l.counts (resolved ++ [row]) []⟩ := by
  cases hedge : l.resolvedEdge? row with
  | none => simp [linkResolved, link, hedge, Linker.graph, Linker.counts]
  | some edge =>
      cases hopen : edge.2.callee.isAmbiguous <;>
        simp [linkResolved, link, hedge, hopen, Linker.graph, Linker.counts]

theorem linkDeclared_eq :
    linkDeclared l ⟨l.graph resolved unresolved, l.counts resolved unresolved⟩ row =
      ⟨l.graph resolved (unresolved ++ [row]), l.counts resolved (unresolved ++ [row])⟩ := by
  cases hedge : l.declaredEdge? row with
  | none => simp [linkDeclared, link, hedge, Linker.graph, Linker.counts, Nat.add_assoc]
  | some edge =>
      cases hopen : edge.2.callee.isAmbiguous <;>
        simp [linkDeclared, link, hedge, hopen, Linker.graph, Linker.counts, Nat.add_assoc]

/-- The counts of a call graph are those that are counted row by row. -/
theorem ofRows_eq :
    ofRows l resolved unresolved = ⟨l.graph resolved unresolved, l.counts resolved unresolved⟩ := by
  have hresolved : resolved.foldl (linkResolved l) start =
      ⟨l.graph resolved [], l.counts resolved []⟩ := by
    induction resolved using List.reverseRecOn with
    | nil => rfl
    | append_singleton resolved row ih => rw [List.foldl_concat, ih, linkResolved_eq]
  rw [ofRows, hresolved]
  induction unresolved using List.reverseRecOn with
  | nil => rfl
  | append_singleton unresolved row ih => rw [List.foldl_concat, ih, linkDeclared_eq]

end

end Tally

namespace Linker

theorem kept_add_dropped (l : Linker) (resolved unresolved : List CallRow) :
    (l.counts resolved unresolved).kept + (l.counts resolved unresolved).dropped =
      resolved.length + unresolved.length := by
  have hsplit (f : CallRow → Option (RowId × Edge)) (rows : List CallRow) :
      rows.length = rows.countP (f · |>.isSome) + rows.countP (f · |>.isNone) := by
    rw [List.length_eq_countP_add_countP (f · |>.isSome)]
    congr 1
    exact List.countP_congr fun row _ => by simp
  have hresolved := hsplit l.resolvedEdge? resolved
  have hunresolved := hsplit l.declaredEdge? unresolved
  simp only [counts, CallCounts.kept]
  omega

theorem edgeCount_graph (l : Linker) (resolved unresolved : List CallRow) :
    (l.graph resolved unresolved).edgeCount = (l.counts resolved unresolved).kept := by
  rw [CallGraph.edgeCount, graph, List.length_append, List.length_filterMap_eq_countP,
    List.length_filterMap_eq_countP]
  rfl

theorem isSome_key?_of_mem_graph {l : Linker} {resolved unresolved : List CallRow}
    {caller : RowId} {e : Edge} (h : (caller, e) ∈ (l.graph resolved unresolved).edges) :
    (l.key? caller).isSome := by
  rcases List.mem_append.mp h with hresolved | hdeclared
  · obtain ⟨row, -, hedge⟩ := List.mem_filterMap.mp hresolved
    exact (edge?_eq_some_iff.mp hedge).2.1
  · obtain ⟨row, -, hedge⟩ := List.mem_filterMap.mp hdeclared
    exact (edge?_eq_some_iff.mp hedge).2.1

end Linker

/-! ## Handing out -/

namespace CallGraph

theorem perm_edgesOf_append (g : CallGraph) (caller : RowId) :
    (g.edgesOf caller ++ (g.without caller).edges.map (·.2)).Perm (g.edges.map (·.2)) := by
  have hparts := List.filter_append_perm (fun e : RowId × Edge => decide (e.1 = caller)) g.edges
  rw [edgesOf, without, ← List.map_append]
  simpa using hparts.map Prod.snd

theorem perm_takeAll (g : CallGraph) (callers : List RowId) :
    ((g.takeAll callers).1.flatten ++ (g.takeAll callers).2.edges.map (·.2)).Perm
      (g.edges.map (·.2)) := by
  induction callers generalizing g with
  | nil => exact .refl _
  | cons caller rest ih =>
      rw [takeAll, List.flatten_cons, List.append_assoc]
      exact ((ih (g.without caller)).append_left _).trans (g.perm_edgesOf_append caller)

theorem edges_takeAll (g : CallGraph) (callers : List RowId) :
    (g.takeAll callers).2.edges = g.edges.filter (·.1 ∉ callers) := by
  induction callers generalizing g with
  | nil => simp [takeAll]
  | cons caller rest ih =>
      show ((g.without caller).takeAll rest).2.edges = _
      rw [ih, without, List.filter_filter]
      apply List.filter_congr
      intro e _
      simp [Bool.and_comm]

theorem edges_takeAll_eq_nil {g : CallGraph} {callers : List RowId}
    (h : ∀ e ∈ g.edges, e.1 ∈ callers) : (g.takeAll callers).2.edges = [] := by
  rw [edges_takeAll, List.filter_eq_nil_iff]
  intro e he
  simpa using h e he

/-- Callers that are served once each get all edges. -/
theorem perm_flatMap_edgesOf {g : CallGraph} {callers : List RowId} (hnodup : callers.Nodup)
    (h : ∀ e ∈ g.edges, e.1 ∈ callers) :
    (callers.flatMap g.edgesOf).Perm (g.edges.map (·.2)) := by
  have hall := g.perm_takeAll callers
  rwa [edges_takeAll_eq_nil h, takeAll_fst hnodup, List.map_nil, List.append_nil] at hall

end CallGraph

end Extraction

/-! ## The edges of a snapshot -/

namespace Snapshot

theorem map_snd_edges (s : Snapshot) : s.edges.map (·.2) = s.records.flatMap (·.callees) := by
  rw [edges, List.map_flatMap]
  simp [Function.comp_def]

theorem edgeCount_eq (s : Snapshot) : s.edgeCount = (s.records.flatMap (·.callees)).length := by
  rw [edgeCount, ← map_snd_edges, List.length_map]

theorem ambiguousEdgeCount_eq (s : Snapshot) :
    s.ambiguousEdgeCount = (s.records.flatMap (·.callees)).countP (·.callee.isAmbiguous) := by
  rw [ambiguousEdgeCount, ← map_snd_edges, List.countP_map]
  rfl

end Snapshot

namespace Extraction

namespace Tables

/-- The edges of the records by the table that they come from: for each known
function those of the resolved rows and those of the unresolved ones. -/
structure ByTable (t : Tables) (s : Snapshot) (parts : List (List Edge × List Edge)) : Prop where
  callees : s.records.map (·.callees) = parts.map fun p => p.1 ++ p.2
  edges : List.Forall₂ (fun id p =>
    t.EdgesOf t.key (t.CallsDefinition id) t.callsResolved p.1 ∧
      t.EdgesOf t.key (t.CallsDeclaration id) t.callsUnresolved p.2) t.inventory.ids parts

variable {t : Tables}

theorem mem_ids_of_mem_graph {resolved unresolved : List CallRow} :
    ∀ e ∈ (t.linker.graph resolved unresolved).edges, e.1 ∈ t.inventory.ids := by
  rintro ⟨caller, e⟩ h
  obtain ⟨key, hkey⟩ := Option.isSome_iff_exists.mp (Linker.isSome_key?_of_mem_graph h)
  exact mem_ids_iff.mpr (key?_eq_some_iff.mp hkey).1

theorem perm_flatMap_graph (t : Tables) (resolved unresolved : List CallRow) :
    (t.inventory.ids.flatMap (t.linker.graph resolved unresolved).edgesOf).Perm
      ((t.linker.graph resolved unresolved).edges.map (·.2)) :=
  CallGraph.perm_flatMap_edgesOf (Inventory.nodup_ids t.definitions) mem_ids_of_mem_graph

theorem length_flatMap_graph (t : Tables) (resolved unresolved : List CallRow) :
    (t.inventory.ids.flatMap (t.linker.graph resolved unresolved).edgesOf).length =
      (t.linker.counts resolved unresolved).kept := by
  rw [(perm_flatMap_graph t resolved unresolved).length_eq, List.length_map,
    ← Linker.edgeCount_graph, CallGraph.edgeCount]

theorem map_callees_records {revision : String} {s : Snapshot} (h : t.assemble revision = .ok s) :
    s.records.map (·.callees) = t.inventory.ids.map t.callGraph.edgesOf := by
  rw [records_eq h, List.map_map, Inventory.ids, List.map_map]
  rfl

theorem perm_callees_records {revision : String} {s : Snapshot} (h : t.assemble revision = .ok s) :
    (s.records.flatMap (·.callees)).Perm (t.callGraph.edges.map (·.2)) := by
  rw [List.flatMap_def, map_callees_records h, ← List.flatMap_def]
  exact perm_flatMap_graph t t.callsResolved t.callsUnresolved

theorem byTable_of_assemble {revision : String} {s : Snapshot} (h : t.assemble revision = .ok s) :
    t.ByTable s (t.inventory.ids.map fun id =>
      ((t.linker.graph t.callsResolved []).edgesOf id,
        (t.linker.graph [] t.callsUnresolved).edgesOf id)) := by
  refine ⟨?_, ?_⟩
  · rw [map_callees_records h, List.map_map]
    exact List.map_congr_left fun id _ => Linker.edgesOf_graph ..
  · rw [List.forall₂_map_right_iff, List.forall₂_same]
    intro id hid
    have hknown := mem_ids_iff.mp hid
    exact ⟨edgesOf_direct hknown, edgesOf_declared hknown⟩

/-- Every row of the call tables is kept or dropped, the kept rows are the edges of the
snapshot, table by table, and the edges with several callees are those that were
expanded. The counts are those that are counted row by row, and the records leave no
edge behind. -/
theorem edges_kept_of_assembly {revision : String} {a : Assembly}
    (h : t.assembly revision = .ok a) :
    Tally.ofRows t.linker t.callsResolved t.callsUnresolved = ⟨t.callGraph, a.counts.calls⟩ ∧
      a.counts.calls.kept + a.counts.calls.dropped =
        t.callsResolved.length + t.callsUnresolved.length ∧
      a.snapshot.edgeCount = a.counts.calls.kept ∧
      (∃ parts, t.ByTable a.snapshot parts ∧
        (parts.flatMap (·.1)).length = a.counts.calls.resolved ∧
        (parts.flatMap (·.2)).length = a.counts.calls.viaDeclaration) ∧
      a.snapshot.ambiguousEdgeCount = a.counts.calls.expanded ∧
      (t.callGraph.takeAll (t.inventory.definitions.map (·.1))).2.edges = [] := by
  obtain ⟨hsnapshot, hcounts⟩ := assembly_eq_ok_iff.mp h
  have hcalls : a.counts.calls = t.linker.counts t.callsResolved t.callsUnresolved :=
    congrArg AssemblyCounts.calls hcounts
  have hperm := perm_callees_records hsnapshot
  rw [hcalls]
  refine ⟨Tally.ofRows_eq .., Linker.kept_add_dropped .., ?_, ?_, ?_,
    CallGraph.edges_takeAll_eq_nil mem_ids_of_mem_graph⟩
  · rw [Snapshot.edgeCount_eq, hperm.length_eq, List.length_map, ← Linker.edgeCount_graph]
    rfl
  · refine ⟨_, byTable_of_assemble hsnapshot, ?_, ?_⟩
    · rw [List.flatMap_map, length_flatMap_graph]
      rfl
    · rw [List.flatMap_map, length_flatMap_graph]
      simp [Linker.counts, CallCounts.kept]
  · rw [Snapshot.ambiguousEdgeCount_eq, hperm.countP_eq, List.countP_map]
    rfl

end Tables

/-- What can be seen in the snapshot says how the calls were counted: of three rows
two were kept, and one of these was expanded. -/
theorem edges_kept_sample :
    sampleTables.assembly "r1" = .ok ⟨sampleSnapshot, sampleTables.counts⟩ ∧
      sampleTables.counts.calls.kept = 2 ∧ sampleTables.counts.calls.dropped = 1 ∧
      sampleTables.counts.calls.expanded = 1 ∧
      (sampleTables.callGraph.takeAll
        (sampleTables.inventory.definitions.map (·.1))).2.edges = [] := by
  have h : sampleTables.assembly "r1" = .ok ⟨sampleSnapshot, sampleTables.counts⟩ :=
    Tables.assembly_eq_ok_iff.mpr ⟨assemble_sample, rfl⟩
  obtain ⟨-, hrows, hkept, -, hexpanded, hleft⟩ := Tables.edges_kept_of_assembly h
  have hedges : sampleSnapshot.edgeCount = 2 := rfl
  have hambiguous : sampleSnapshot.ambiguousEdgeCount = 1 := rfl
  rw [← hkept, hedges] at hrows
  exact ⟨h, hkept.symm.trans hedges, Nat.add_left_cancel hrows, hexpanded.symm.trans hambiguous,
    hleft⟩

end Extraction

end CallAtlas
