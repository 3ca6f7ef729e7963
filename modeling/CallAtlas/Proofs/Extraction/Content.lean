import CallAtlas.Proofs.Extraction.Sharing
import CallAtlas.Proofs.Key.Groups

/-!
# What an assembly depends on

The rows of a build come in the order in which they happened to be collected,
and one compiler spells a signature in another way than the next. An assembly
sees neither: it depends on what the rows say, and on their order only where
calls of one function follow each other.
-/

namespace CallAtlas

namespace Extraction

/-! ## What rows say -/

/-- What a definition says, however its signature is spelled. -/
def DefinitionRow.content (row : DefinitionRow) : RowId × String × Signature × Interval :=
  (row.id, row.path, .canonical row.signature, row.lines)

/-- What a declaration says, however its signature is spelled. Where it stands
is not read. -/
def DeclarationRow.content (row : DeclarationRow) : RowId × Signature × Option RowId :=
  (row.id, .canonical row.signature, row.definition)

/-- The same calls, those of each function in the same order. -/
structure Reordered (rows others : List CallRow) : Prop where
  perm : rows.Perm others
  filter_eq : ∀ caller : RowId,
    rows.filter (·.caller = some caller) = others.filter (·.caller = some caller)

/-- The tables say the same, in another order of rows and another spelling of
signatures. -/
structure Tables.SameContent (t u : Tables) : Prop where
  definitions : (t.definitions.map (·.content)).Perm (u.definitions.map (·.content))
  declarations : (t.declarations.map (·.content)).Perm (u.declarations.map (·.content))
  callsResolved : Reordered t.callsResolved u.callsResolved
  callsUnresolved : Reordered t.callsUnresolved u.callsUnresolved
  overridesResolved : t.overridesResolved.Perm u.overridesResolved
  overridesUnresolved : t.overridesUnresolved.Perm u.overridesUnresolved

/-! ## Inventories -/

namespace Inventory

def ofContents (contents : List (RowId × String × Signature × Interval)) : Inventory :=
  let files := (contents.map (·.2.1)).eraseDups
  ⟨files, contents.map fun (id, path, signature, lines) =>
    (id, ⟨files.idxOf path, signature, lines⟩)⟩

theorem extract_eq_ofContents (rows : List DefinitionRow) :
    extract rows = ofContents ((byId rows).map (·.content)) := by
  rw [extract, ofContents, List.map_map, List.map_map]
  rfl

theorem map_content_byId {rows others : List DefinitionRow}
    (h : (rows.map (·.content)).Perm (others.map (·.content)))
    (hids : (rows.map (·.id)).Nodup) :
    (byId rows).map (·.content) = (byId others).map (·.content) := by
  have hperm : ((byId rows).map (·.content)).Perm ((byId others).map (·.content)) :=
    ((perm_byId rows).map _).trans (h.trans ((perm_byId others).map _).symm)
  have hothers : (others.map (·.id)).Nodup := by
    have hsame := h.map Prod.fst
    rw [List.map_map, List.map_map] at hsame
    exact hsame.nodup_iff.mp hids
  have hlt : ∀ {rows : List DefinitionRow}, (rows.map (·.id)).Nodup →
      ((byId rows).map (·.content)).Pairwise fun a b => a.1 < b.1 :=
    fun hids => List.pairwise_map.mpr (pairwise_lt_byId hids)
  exact hperm.eq_of_pairwise (fun _ _ _ _ hab hba => absurd hab (Int.lt_asymm hba)) (hlt hids)
    (hlt hothers)

end Inventory

/-! ## Bindings and override classes -/

/-- What depends only on `f` is the same for lists that are the same up to order
as far as `f` can tell. -/
theorem map_perm_of_factorsThrough {α β γ : Type} [Inhabited γ] {f : α → β} {g : α → γ}
    (hg : g.FactorsThrough f) {l k : List α} (h : (l.map f).Perm (k.map f)) :
    (l.map g).Perm (k.map g) := by
  have hmap := h.map (Function.extend f g default)
  rwa [List.map_map, List.map_map, hg.extend_comp] at hmap

namespace Declarations

theorem perm_bindings {rows others : List DeclarationRow}
    (h : (rows.map (·.content)).Perm (others.map (·.content))) (inv : Inventory) :
    (bind rows inv).bindings.Perm (bind others inv).bindings := by
  have : Inhabited (RowId × Binding) := ⟨(0, .unknown)⟩
  refine map_perm_of_factorsThrough (f := DeclarationRow.content) ?_ h
  intro row other hcontent
  simp only [DeclarationRow.content, Prod.mk.injEq] at hcontent
  obtain ⟨hid, hsignature, hdefinition⟩ := hcontent
  simp only [Binding.ofRow, hid, hsignature, hdefinition]

theorem resolve_congr {d e : Declarations} (hperm : d.bindings.Perm e.bindings)
    (hids : (d.bindings.map (·.1)).Nodup) : d.resolve = e.resolve := by
  funext id
  rw [resolve, resolve, lookup_reverse, lookup_reverse, filter_eq_of_perm hperm hids]

theorem counts_congr {d e : Declarations} (hperm : d.bindings.Perm e.bindings) :
    d.counts = e.counts := by
  simp only [counts, hperm.countP_eq]

end Declarations

theorem Overrides.ofRows_congr {d e : Declarations} (hresolve : d.resolve = e.resolve)
    {resolved resolved' unresolved unresolved' : List OverrideRow}
    (hresolved : resolved.Perm resolved') (hunresolved : unresolved.Perm unresolved') :
    ofRows resolved unresolved d = ofRows resolved' unresolved' e := by
  have hrecorded :
      (recorded resolved unresolved d).Perm (recorded resolved' unresolved' e) := by
    rw [recorded, recorded, hresolve]
    exact (hresolved.filterMap _).append (hunresolved.filterMap _)
  have hpairs := hrecorded.append (hrecorded.map Prod.swap)
  refine congrArg Overrides.mk (Ascending.ext (Ascending.ofList_ascending _)
    (Ascending.ofList_ascending _) fun pair => ?_)
  rw [Ascending.mem_ofList, Ascending.mem_ofList, hpairs.mem_iff]

/-! ## Call graphs -/

namespace Linker

/-- Both link every call in the same way. -/
structure LinksAs (l l' : Linker) : Prop where
  keys_eq : l.keys = l'.keys
  overrides_eq : l.overrides = l'.overrides
  resolve_eq : l.declarations.resolve = l'.declarations.resolve

variable {l l' : Linker}

theorem LinksAs.edge?_eq (h : LinksAs l l') : l.edge? = l'.edge? := by
  obtain ⟨keys, declarations, overrides⟩ := l
  obtain ⟨rfl, rfl, -⟩ := h
  rfl

theorem LinksAs.resolvedEdge?_eq (h : LinksAs l l') : l.resolvedEdge? = l'.resolvedEdge? := by
  funext row
  rw [resolvedEdge?, resolvedEdge?, h.edge?_eq]

theorem LinksAs.declaredEdge?_eq (h : LinksAs l l') : l.declaredEdge? = l'.declaredEdge? := by
  funext row
  rw [declaredEdge?, declaredEdge?, h.edge?_eq, h.resolve_eq]

theorem filter_filterMap_edge? (l : Linker) (callee : CallRow → Option RowId)
    (rows : List CallRow) (caller : RowId) :
    (rows.filterMap fun row => l.edge? row (callee row)).filter (·.1 = caller) =
      (rows.filter (·.caller = some caller)).filterMap fun row => l.edge? row (callee row) := by
  rw [List.filter_filterMap, List.filterMap_filter]
  refine List.filterMap_congr fun row _ => ?_
  cases hedge : l.edge? row (callee row) with
  | none => simp
  | some edge =>
      have hcaller : row.caller = some edge.1 := (edge?_eq_some_iff.mp hedge).1
      simp [hcaller, Option.filter_some]

theorem filter_filterMap_congr (l : Linker) (callee : CallRow → Option RowId)
    {rows others : List CallRow} (h : Reordered rows others) (caller : RowId) :
    (rows.filterMap fun row => l.edge? row (callee row)).filter (·.1 = caller) =
      (others.filterMap fun row => l.edge? row (callee row)).filter (·.1 = caller) := by
  rw [filter_filterMap_edge?, h.filter_eq, ← filter_filterMap_edge?]

variable {resolved resolved' unresolved unresolved' : List CallRow}

theorem LinksAs.edgesOf_eq (h : LinksAs l l') (hresolved : Reordered resolved resolved')
    (hunresolved : Reordered unresolved unresolved') (caller : RowId) :
    (l.graph resolved unresolved).edgesOf caller =
      (l'.graph resolved' unresolved').edgesOf caller := by
  have hdirect : (resolved.filterMap l'.resolvedEdge?).filter (·.1 = caller) =
      (resolved'.filterMap l'.resolvedEdge?).filter (·.1 = caller) :=
    filter_filterMap_congr l' (·.callee) hresolved caller
  have hdeclared : (unresolved.filterMap l'.declaredEdge?).filter (·.1 = caller) =
      (unresolved'.filterMap l'.declaredEdge?).filter (·.1 = caller) :=
    filter_filterMap_congr l' (·.callee.bind l'.declarations.resolve) hunresolved caller
  rw [CallGraph.edgesOf, CallGraph.edgesOf, graph, graph, h.resolvedEdge?_eq,
    h.declaredEdge?_eq, List.filter_append, List.filter_append, hdirect, hdeclared]

theorem LinksAs.counts_eq (h : LinksAs l l') (hresolved : resolved.Perm resolved')
    (hunresolved : unresolved.Perm unresolved') :
    l.counts resolved unresolved = l'.counts resolved' unresolved' := by
  have hedges :
      (l.graph resolved unresolved).edges.Perm (l'.graph resolved' unresolved').edges := by
    rw [graph, graph, h.resolvedEdge?_eq, h.declaredEdge?_eq]
    exact (hresolved.filterMap _).append (hunresolved.filterMap _)
  simp only [counts, hedges.countP_eq, h.resolvedEdge?_eq, h.declaredEdge?_eq,
    hresolved.countP_eq, hunresolved.countP_eq]

end Linker

/-! ## Hash tables

The definitions get their keys twice, once when calls are linked and once when
the snapshot is built, and either time from a table of groups that may hold them
in an order of its own. -/

end Extraction

/-- The snapshot of these files and bodies, with keys that `assignment` gives
out. -/
def Snapshot.buildWith (assignment : List Key.Source → List Key) (files : List String)
    (bodies : List Body) (revision : String) : Except Defect Snapshot :=
  match bodies.find? fun b => files.length ≤ b.file with
  | some b => .error (.fileOutOfRange b.file files.length b.signature)
  | none => do
      let records := List.zipWith Record.mk bodies (assignment (sources files bodies))
      let index ← enter [] 0 records
      return ⟨files, records, revision, index⟩

namespace Extraction

namespace Tables

/-- Assembles the snapshot of a revision, with keys that `linked` gives out for
the calls and `named` for the records. -/
def assemblyWith (t : Tables) (linked named : List Key.Source → List Key) (revision : String) :
    Except Snapshot.Defect Assembly := do
  let linker := { t.linker with keys := t.inventory.ids.zip (linked t.inventory.sources) }
  let (edges, _) := (linker.graph t.callsResolved t.callsUnresolved).takeAll t.inventory.ids
  let bodies := List.zipWith (fun (_, d) callees => ⟨d.file, d.signature, d.lines, callees⟩)
    t.inventory.definitions edges
  let snapshot ← Snapshot.buildWith named t.inventory.files bodies revision
  return ⟨snapshot, { t.counts with calls := linker.counts t.callsResolved t.callsUnresolved }⟩

/-- The order of the groups does not matter. -/
theorem assemblyWith_eq (t : Tables) {linked named : List Key.Source → List Key}
    (hlinked : Key.GroupByGroup linked) (hnamed : Key.GroupByGroup named) (revision : String) :
    t.assemblyWith linked named revision = t.assembly revision := by
  rw [hlinked.eq_assign, hnamed.eq_assign]
  rfl

/-! ## Assemblies -/

namespace SameContent

section

variable {t u : Tables} (h : t.SameContent u) (hids : t.DistinctIds)

include h hids

theorem inventory_eq : t.inventory = u.inventory := by
  rw [inventory, inventory, Inventory.extract_eq_ofContents, Inventory.extract_eq_ofContents,
    Inventory.map_content_byId h.definitions hids]

theorem perm_bindings :
    t.linker.declarations.bindings.Perm u.linker.declarations.bindings := by
  show (Declarations.bind t.declarations t.inventory).bindings.Perm
    (Declarations.bind u.declarations u.inventory).bindings
  rw [← h.inventory_eq hids]
  exact Declarations.perm_bindings h.declarations t.inventory

variable (hdeclared : (t.declarations.map (·.id)).Nodup)

include hdeclared

theorem linksAs : t.linker.LinksAs u.linker := by
  have hbindings : (t.linker.declarations.bindings.map (·.1)).Nodup := by
    show ((t.declarations.map fun row => (row.id, _)).map (·.1)).Nodup
    rwa [List.map_map]
  have hresolve := Declarations.resolve_congr (h.perm_bindings hids) hbindings
  exact {
    keys_eq := congrArg Inventory.keys (h.inventory_eq hids)
    overrides_eq :=
      Overrides.ofRows_congr hresolve h.overridesResolved h.overridesUnresolved
    resolve_eq := hresolve }

theorem bodies_eq : t.bodies = u.bodies := by
  have hedges : t.callGraph.edgesOf = u.callGraph.edgesOf :=
    funext ((h.linksAs hids hdeclared).edgesOf_eq h.callsResolved h.callsUnresolved)
  rw [Tables.bodies_eq, Tables.bodies_eq, h.inventory_eq hids]
  simp only [body, hedges]

theorem counts_eq : t.counts = u.counts := by
  have hlinks := h.linksAs hids hdeclared
  rw [counts, counts, h.inventory_eq hids, hlinks.overrides_eq,
    Declarations.counts_congr (h.perm_bindings hids),
    hlinks.counts_eq h.callsResolved.perm h.callsUnresolved.perm]

end

/-- Tables that say the same assemble to the same, or fail both for the same
reason, in whatever order hash tables hold their groups. -/
theorem assembly_eq {t u : Tables} (h : t.SameContent u) (hids : t.DistinctIds)
    (hdeclared : (t.declarations.map (·.id)).Nodup) (revision : String) :
    t.assembly revision = u.assembly revision ∧
      ∀ linked named linked' named' : List Key.Source → List Key,
        Key.GroupByGroup linked → Key.GroupByGroup named →
        Key.GroupByGroup linked' → Key.GroupByGroup named' →
        t.assemblyWith linked named revision = u.assemblyWith linked' named' revision := by
  have hassembly : t.assembly revision = u.assembly revision := by
    rw [assembly, assembly, h.inventory_eq hids, h.bodies_eq hids hdeclared,
      h.counts_eq hids hdeclared]
  refine ⟨hassembly, ?_⟩
  intro linked named linked' named' hlinked hnamed hlinked' hnamed'
  rw [assemblyWith_eq t hlinked hnamed, assemblyWith_eq u hlinked' hnamed', hassembly]

end SameContent

def shuffledTables : Tables where
  definitions := [⟨1, "a.c", "f(int*)", ⟨1, 4⟩⟩, ⟨2, "b.c", "g()", ⟨1, 3⟩⟩]
  declarations := [⟨⟨7, "b.h", "g()", ⟨1, 1⟩⟩, none⟩]
  callsResolved := [⟨some 1, some 9, 3, 1, false⟩, ⟨some 2, some 1, 2, 5, true⟩]
  callsUnresolved := [⟨some 1, some 7, 2, 3, false⟩]
  overridesResolved := [⟨some 1, some 2⟩, ⟨some 1, some 1⟩]
  overridesUnresolved := []

theorem sameContent_shuffled : sampleTables.SameContent shuffledTables where
  definitions := by decide +kernel
  declarations := .refl _
  callsResolved := {
    perm := .swap _ _ _
    filter_eq := by
      intro caller
      by_cases hfirst : caller = 1
      · subst hfirst
        rfl
      · have hother : ¬ 1 = caller := fun heq => hfirst heq.symm
        simp [sampleTables, shuffledTables, List.filter_cons, hother] }
  callsUnresolved := ⟨.refl _, fun _ => rfl⟩
  overridesResolved := .swap _ _ _
  overridesUnresolved := .refl _

theorem assembly_shuffled :
    sampleTables.SameContent shuffledTables ∧ sampleTables.DistinctIds ∧
      (sampleTables.declarations.map (·.id)).Nodup ∧ Key.GroupByGroup Key.assign ∧
      shuffledTables.assembly "r1" = .ok ⟨sampleSnapshot, sampleTables.counts⟩ ∧
      sampleTables.assemblyWith Key.assign Key.assign "r1" =
        shuffledTables.assemblyWith Key.assign Key.assign "r1" := by
  have hids : sampleTables.DistinctIds := by decide
  have hdeclared : (sampleTables.declarations.map (·.id)).Nodup := by decide
  have hgroups := Key.groupByGroup_assign
  obtain ⟨hassembly, hwith⟩ := sameContent_shuffled.assembly_eq hids hdeclared "r1"
  have hsample : sampleTables.assembly "r1" = .ok ⟨sampleSnapshot, sampleTables.counts⟩ :=
    assembly_eq_ok_iff.mpr ⟨assemble_sample, rfl⟩
  exact ⟨sameContent_shuffled, hids, hdeclared, hgroups, hassembly ▸ hsample,
    hwith _ _ _ _ hgroups hgroups hgroups hgroups⟩

end Tables

end Extraction

end CallAtlas
