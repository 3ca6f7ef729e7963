import CallAtlas.Extraction.Assembly
import CallAtlas.Proofs.Extraction.Linking
import CallAtlas.Proofs.Snapshot.WellFormed
import Mathlib.Data.List.Permutation

/-!
# What assembly computes

The records of an assembled snapshot, said by the rows of the tables alone:
which functions there are, which row describes each of them, and which rows of
the call tables become its edges, in which order and with which callees.
-/

namespace CallAtlas.Extraction

/-! ## What the tables say -/

namespace Tables

/-- Some row defines the function with that id. -/
def Known (t : Tables) (id : RowId) : Prop :=
  ∃ row ∈ t.definitions, row.id = id

/-- The declaration stands for the definition: the last row of the declaration
names it or, where that row names none, it alone has the declared signature. -/
def Resolves (t : Tables) (declaration definition : RowId) : Prop :=
  ∃ row, (t.declarations.filter (·.id = declaration)).getLast? = some row ∧
    (row.definition = some definition ∨
      row.definition = none ∧
        ∃ only, t.definitions.filter
            (Signature.canonical ·.signature = .canonical row.signature) = [only] ∧
          only.id = definition)

/-- Some row records that `b` overrides `a`. -/
def Overridden (t : Tables) (a b : RowId) : Prop :=
  (∃ row ∈ t.overridesResolved, row.base = some a ∧ row.other = some b) ∨
    ∃ row ∈ t.overridesUnresolved, row.base = some a ∧
      ∃ declaration, row.other = some declaration ∧ t.Resolves declaration b

/-- The known functions that override a function or that it overrides. -/
structure IsClass (t : Tables) (id : RowId) (members : List RowId) : Prop where
  ascending : Ascending members
  mem_iff : ∀ member, member ∈ members ↔
    t.Known member ∧ (t.Overridden id member ∨ t.Overridden member id)

/-- The callee of a call that reaches `target`, by whether it is virtual. -/
inductive Reaches (t : Tables) (key : RowId → Key) (target : RowId) : Bool → Callee → Prop where
  | direct : Reaches t key target false (.single (key target))
  | alone : t.IsClass target [] → Reaches t key target true (.single (key target))
  | only {member : RowId} : t.IsClass target [member] →
      Reaches t key target true (.single (key member))
  | several {first second : RowId} {others : List RowId} :
      t.IsClass target (first :: second :: others) →
      Reaches t key target true (.candidates ((first :: second :: others).map key))

/-- A row of the resolved table calls the definition from `caller`. -/
def CallsDefinition (t : Tables) (caller : RowId) (row : CallRow) (target : RowId) : Prop :=
  row.caller = some caller ∧ row.callee = some target ∧ t.Known target

/-- A row of the unresolved table calls, from `caller`, a declaration that
stands for the definition. -/
def CallsDeclaration (t : Tables) (caller : RowId) (row : CallRow) (target : RowId) : Prop :=
  row.caller = some caller ∧
    (∃ declaration, row.callee = some declaration ∧ t.Resolves declaration target) ∧
    t.Known target

/-- The edges of the rows that call something, one for each such row and in
table order. -/
inductive EdgesOf (t : Tables) (key : RowId → Key) (calls : CallRow → RowId → Prop) :
    List CallRow → List Edge → Prop where
  | nil : EdgesOf t key calls [] []
  | edge {row : CallRow} {rows : List CallRow} {target : RowId} {callee : Callee}
      {edges : List Edge} : calls row target → t.Reaches key target row.isVirtual callee →
      EdgesOf t key calls rows edges →
      EdgesOf t key calls (row :: rows) (⟨callee, row.line, row.col⟩ :: edges)
  | skip {row : CallRow} {rows : List CallRow} {edges : List Edge} :
      (∀ target, ¬ calls row target) → EdgesOf t key calls rows edges →
      EdgesOf t key calls (row :: rows) edges

/-- The record of the definition with that id. -/
structure Describes (t : Tables) (key : RowId → Key) (files : List String) (id : RowId)
    (r : Record) : Prop where
  key_eq : r.key = key id
  definition : ∃ row, definitionRow? t.definitions id = some row ∧
    files[r.file]? = some row.path ∧ r.signature = .canonical row.signature ∧
      r.lines = row.lines
  callees : ∃ direct declared,
    t.EdgesOf key (t.CallsDefinition id) t.callsResolved direct ∧
      t.EdgesOf key (t.CallsDeclaration id) t.callsUnresolved declared ∧
      r.callees = direct ++ declared

end Tables

/-! ## Edges by caller -/

namespace CallGraph

theorem edgesOf_without {g : CallGraph} {caller other : RowId} (h : other ≠ caller) :
    (g.without caller).edgesOf other = g.edgesOf other := by
  rw [edgesOf, without, List.filter_filter, edgesOf]
  congr 1
  apply List.filter_congr
  rintro ⟨id, edge⟩ _
  by_cases heq : id = other
  · simp [heq, h]
  · simp [heq]

/-- Different callers each get their own edges, whoever was served before. -/
theorem takeAll_fst {callers : List RowId} (h : callers.Nodup) (g : CallGraph) :
    (g.takeAll callers).1 = callers.map g.edgesOf := by
  induction callers generalizing g with
  | nil => rfl
  | cons caller rest ih =>
      obtain ⟨hcaller, hrest⟩ := List.nodup_cons.mp h
      show g.edgesOf caller :: ((g.without caller).takeAll rest).1 = _
      rw [ih hrest, List.map_cons]
      congr 1
      -- later callers look into a graph that has lost the edges of this one only
      apply List.map_congr_left
      intro other hother
      exact edgesOf_without fun heq => hcaller (heq ▸ hother)

end CallGraph

theorem Linker.edge?_eq_some_iff {l : Linker} {row : CallRow} {callee : Option RowId}
    {caller : RowId} {edge : Edge} :
    l.edge? row callee = some (caller, edge) ↔
      row.caller = some caller ∧ (l.key? caller).isSome ∧
        ∃ target key, callee = some target ∧ l.key? target = some key ∧
          edge = ⟨if row.isVirtual then (l.widen? target).getD (.single key) else .single key,
            row.line, row.col⟩ := by
  simp only [edge?, Option.bind_eq_bind, Option.bind_eq_some_iff, Option.pure_def,
    Option.some.injEq, Prod.mk.injEq, Option.isSome_iff_exists]
  constructor
  · rintro ⟨_, hcaller, own, hown, target, htarget, key, hkey, rfl, rfl⟩
    exact ⟨hcaller, ⟨own, hown⟩, target, key, htarget, hkey, rfl⟩
  · rintro ⟨hcaller, ⟨own, hown⟩, target, key, htarget, hkey, rfl⟩
    exact ⟨caller, hcaller, own, hown, target, htarget, key, hkey, rfl, rfl⟩

theorem Linker.edgesOf_graph (l : Linker) (resolved unresolved : List CallRow) (caller : RowId) :
    (l.graph resolved unresolved).edgesOf caller =
      (l.graph resolved []).edgesOf caller ++ (l.graph [] unresolved).edgesOf caller := by
  simp [CallGraph.edgesOf, graph]

/-! ## Keys -/

theorem map_lookup_zip {ids : List RowId} {keys : List Key} (hids : ids.Nodup)
    (hlength : ids.length = keys.length) :
    (ids.map fun id => (ids.zip keys).lookup id) = keys.map some := by
  induction ids generalizing keys with
  | nil =>
      obtain rfl := List.eq_nil_of_length_eq_zero hlength.symm
      rfl
  | cons id ids ih =>
      obtain _ | ⟨key, keys⟩ := keys
      · simp at hlength
      · obtain ⟨hid, hids⟩ := List.nodup_cons.mp hids
        rw [List.map_cons, List.zip_cons_cons, List.lookup_cons_self, List.map_cons,
          ← ih hids (Nat.succ.inj hlength)]
        congr 1
        apply List.map_congr_left
        intro other hother
        have hne : other ≠ id := fun heq => hid (heq ▸ hother)
        have hbeq : (other == id) = false := by simpa using hne
        rw [List.lookup_cons, hbeq]

namespace Tables

variable {t : Tables}

theorem mem_ids_iff {id : RowId} : id ∈ t.inventory.ids ↔ t.Known id :=
  Inventory.mem_ids_iff t.definitions

/-- The key that calls of a definition are linked with. -/
def key (t : Tables) (id : RowId) : Key :=
  (t.linker.key? id).getD default

theorem map_key?_ids (t : Tables) :
    t.inventory.ids.map t.linker.key? = (Key.assign t.inventory.sources).map some := by
  have hlength : t.inventory.ids.length = (Key.assign t.inventory.sources).length := by
    rw [Key.length_assign, Inventory.sources, Inventory.ids, List.length_map, List.length_map]
  exact map_lookup_zip (Inventory.nodup_ids t.definitions) hlength

theorem map_key_ids (t : Tables) :
    t.inventory.ids.map t.key = Key.assign t.inventory.sources := by
  have h := congrArg (List.map (Option.getD · default)) (map_key?_ids t)
  rw [List.map_map, List.map_map] at h
  exact h.trans (List.map_id _)

theorem key?_eq_some_iff {id : RowId} {key : Key} :
    t.linker.key? id = some key ↔ t.Known id ∧ key = t.key id := by
  have hsome : t.Known id → (t.linker.key? id).isSome := by
    intro hknown
    have hmem := List.mem_map_of_mem (f := t.linker.key?) (mem_ids_iff.mpr hknown)
    rw [map_key?_ids] at hmem
    obtain ⟨found, _, hfound⟩ := List.mem_map.mp hmem
    rw [← hfound]
    rfl
  have hknown : (t.linker.key? id).isSome → t.Known id := by
    intro h
    rw [Linker.key?, List.lookup_isSome_iff] at h
    obtain ⟨entry, hentry, heq⟩ := h
    obtain rfl : id = entry.1 := by simpa using heq
    exact mem_ids_iff.mp (List.of_mem_zip hentry).1
  constructor
  · intro h
    exact ⟨hknown (by rw [h]; rfl), by rw [Tables.key, h, Option.getD_some]⟩
  · rintro ⟨h, rfl⟩
    obtain ⟨found, hfound⟩ := Option.isSome_iff_exists.mp (hsome h)
    rw [Tables.key, hfound, Option.getD_some]

/-! ## Callees -/

theorem resolve_eq_some_iff {declaration definition : RowId} :
    t.linker.declarations.resolve declaration = some definition ↔
      t.Resolves declaration definition := by
  show (Declarations.bind t.declarations t.inventory).resolve declaration = some definition ↔ _
  rw [Declarations.resolve_eq_some_iff]
  simp only [Binding.target?_ofRow_eq_some_iff, inventory, Inventory.candidates_eq_singleton_iff,
    Resolves]

theorem mem_members_iff {id member : RowId} :
    member ∈ t.linker.overrides.members id ↔ t.Overridden id member ∨ t.Overridden member id := by
  have hrecorded : ∀ a b, (a, b) ∈ Overrides.recorded t.overridesResolved t.overridesUnresolved
      t.linker.declarations ↔ t.Overridden a b := by
    intro a b
    simp only [Overrides.mem_recorded_iff, resolve_eq_some_iff, Overridden]
  rw [← hrecorded, ← hrecorded]
  exact Overrides.mem_members_iff

/-- The known members of the override class that a virtual call is widened
to. -/
def classOf (t : Tables) (id : RowId) : List RowId :=
  (t.linker.overrides.members id).filter fun member => (t.linker.key? member).isSome

theorem isClass_classOf (t : Tables) (id : RowId) : t.IsClass id (t.classOf id) := by
  refine ⟨(Overrides.ascending_members id).filter _, ?_⟩
  intro member
  rw [classOf, List.mem_filter, mem_members_iff, Option.isSome_iff_exists]
  simp only [key?_eq_some_iff, exists_and_left, exists_eq, and_true]
  exact and_comm

theorem widen?_eq (id : RowId) :
    t.linker.widen? id = Callee.ofClass? ((t.classOf id).map t.key) := by
  have hkeys : (t.linker.overrides.members id).filterMap t.linker.key? =
      (t.classOf id).map t.key := by
    rw [classOf, ← List.filterMap_eq_map, List.filterMap_filter]
    apply List.filterMap_congr
    intro member _
    cases hkey : t.linker.key? member with
    | none => rfl
    | some key => simp [(key?_eq_some_iff.mp hkey).2]
  rw [Linker.widen?, hkeys]

theorem reaches_edge (target : RowId) (virtual : Bool) :
    t.Reaches t.key target virtual
      (if virtual then (t.linker.widen? target).getD (.single (t.key target))
        else .single (t.key target)) := by
  cases virtual with
  | false => exact .direct
  | true =>
      have hclass := isClass_classOf t target
      rw [if_pos rfl, widen?_eq]
      match hmembers : t.classOf target with
      | [] => exact .alone (hmembers ▸ hclass)
      | [member] => exact .only (hmembers ▸ hclass)
      | first :: second :: others => exact .several (hmembers ▸ hclass)

theorem edgesOf_filterMap {caller : RowId} (hcaller : t.Known caller)
    {callee : CallRow → Option RowId} {calls : CallRow → RowId → Prop}
    (hcalls : ∀ row target, calls row target ↔
      row.caller = some caller ∧ callee row = some target ∧ t.Known target)
    (rows : List CallRow) :
    t.EdgesOf t.key calls rows
      (((rows.filterMap fun row => t.linker.edge? row (callee row)).filter (·.1 = caller)).map
        (·.2)) := by
  induction rows with
  | nil => exact .nil
  | cons row rows ih =>
      by_cases h : ∃ target, calls row target
      · obtain ⟨target, htarget⟩ := h
        obtain ⟨hrow, hcallee, hknown⟩ := (hcalls row target).mp htarget
        have hedge : t.linker.edge? row (callee row) = some (caller, _) :=
          Linker.edge?_eq_some_iff.mpr ⟨hrow,
            Option.isSome_iff_exists.mpr ⟨_, key?_eq_some_iff.mpr ⟨hcaller, rfl⟩⟩,
            target, _, hcallee, key?_eq_some_iff.mpr ⟨hknown, rfl⟩, rfl⟩
        simp only [List.filterMap_cons, hedge]
        rw [List.filter_cons_of_pos (by simp), List.map_cons]
        exact .edge htarget (reaches_edge target row.isVirtual) ih
      · refine .skip (not_exists.mp h) ?_
        cases hedge : t.linker.edge? row (callee row) with
        | none =>
            simp only [List.filterMap_cons, hedge]
            exact ih
        | some found =>
            obtain ⟨id, edge⟩ := found
            obtain ⟨hrow, _, target, key, hcallee, hkey, _⟩ := Linker.edge?_eq_some_iff.mp hedge
            have hother : id ≠ caller := by
              rintro rfl
              exact h ⟨target, (hcalls row target).mpr
                ⟨hrow, hcallee, (key?_eq_some_iff.mp hkey).1⟩⟩
            simp only [List.filterMap_cons, hedge]
            rw [List.filter_cons_of_neg (by simpa using hother)]
            exact ih

section

variable {caller : RowId} (hcaller : t.Known caller)

include hcaller

theorem edgesOf_direct :
    t.EdgesOf t.key (t.CallsDefinition caller) t.callsResolved
      ((t.linker.graph t.callsResolved []).edgesOf caller) := by
  have hcalls : ∀ row target, t.CallsDefinition caller row target ↔
      row.caller = some caller ∧ row.callee = some target ∧ t.Known target :=
    fun _ _ => Iff.rfl
  rw [Linker.graph, List.filterMap_nil, List.append_nil]
  exact edgesOf_filterMap hcaller hcalls t.callsResolved

theorem edgesOf_declared :
    t.EdgesOf t.key (t.CallsDeclaration caller) t.callsUnresolved
      ((t.linker.graph [] t.callsUnresolved).edgesOf caller) := by
  have hcalls : ∀ row target, t.CallsDeclaration caller row target ↔
      row.caller = some caller ∧
        row.callee.bind t.linker.declarations.resolve = some target ∧ t.Known target := by
    intro row target
    simp only [CallsDeclaration, Option.bind_eq_some_iff, resolve_eq_some_iff]
  rw [Linker.graph, List.filterMap_nil, List.nil_append]
  exact edgesOf_filterMap hcaller hcalls t.callsUnresolved

end

theorem edgesOf_callGraph {caller : RowId} (hcaller : t.Known caller) :
    ∃ direct declared,
      t.EdgesOf t.key (t.CallsDefinition caller) t.callsResolved direct ∧
        t.EdgesOf t.key (t.CallsDeclaration caller) t.callsUnresolved declared ∧
        t.callGraph.edgesOf caller = direct ++ declared :=
  ⟨_, _, edgesOf_direct hcaller, edgesOf_declared hcaller, Linker.edgesOf_graph ..⟩

/-! ## Records -/

def body (t : Tables) (id : RowId) (d : Definition) : Body :=
  ⟨d.file, d.signature, d.lines, t.callGraph.edgesOf id⟩

/-- The record of each definition, but for its key, with these edges. -/
def bodiesOf (t : Tables) (edges : RowId → List Edge) : List Body :=
  t.inventory.definitions.map fun (id, d) => ⟨d.file, d.signature, d.lines, edges id⟩

/-- The edges are taken out of any graph in turn, but each definition gets its own. -/
theorem bodiesOf_edgesOf (t : Tables) (g : CallGraph) :
    t.bodiesOf g.edgesOf =
      List.zipWith (fun (_, d) callees => ⟨d.file, d.signature, d.lines, callees⟩)
        t.inventory.definitions (g.takeAll t.inventory.ids).1 := by
  have htake := CallGraph.takeAll_fst (Inventory.nodup_ids t.definitions) g
  rw [inventory, htake, Inventory.ids, List.map_map, List.zipWith_map_right, List.zipWith_self]
  rfl

theorem bodies_eq (t : Tables) :
    t.bodies = t.inventory.definitions.map fun (id, d) => t.body id d :=
  (t.bodiesOf_edgesOf t.callGraph).symm

theorem sources_bodiesOf (t : Tables) (edges : RowId → List Edge) :
    Snapshot.sources t.inventory.files (t.bodiesOf edges) = t.inventory.sources := by
  rw [Snapshot.sources, bodiesOf, List.map_map, Inventory.sources]
  rfl

theorem sources_bodies (t : Tables) :
    Snapshot.sources t.inventory.files t.bodies = t.inventory.sources := by
  rw [bodies_eq]
  exact t.sources_bodiesOf t.callGraph.edgesOf

theorem file_lt_of_mem_bodiesOf (t : Tables) (edges : RowId → List Edge) :
    ∀ b ∈ t.bodiesOf edges, b.file < t.inventory.files.length := by
  intro b hb
  obtain ⟨⟨id, d⟩, hd, rfl⟩ := List.mem_map.mp hb
  exact Inventory.file_lt_of_mem_definitions t.definitions hd

theorem records_eq {revision : String} {s : Snapshot} (h : t.assemble revision = .ok s) :
    s.records = t.inventory.definitions.map fun (id, d) => ⟨t.body id d, t.key id⟩ := by
  obtain ⟨hwell, hfiles, hbodies, _⟩ := Snapshot.build_eq_ok_iff.mp h
  have hkeys := hwell.keys_eq
  rw [hfiles, hbodies, sources_bodies, ← map_key_ids] at hkeys
  have hrecords := Snapshot.withKeys_eq_iff.mpr ⟨hbodies, (hkeys.trans (map_key_ids t)).trans
    (congrArg Key.assign (sources_bodies t).symm)⟩
  rw [← hrecords, Snapshot.withKeys, sources_bodies, ← map_key_ids, bodies_eq, Inventory.ids,
    List.map_map, List.zipWith_map, List.zipWith_self]
  rfl

theorem assembly_eq_map (t : Tables) (revision : String) :
    t.assembly revision = (t.assemble revision).map fun s => ⟨s, t.counts⟩ := by
  rw [assembly, assemble]
  cases Snapshot.build t.inventory.files t.bodies revision <;> rfl

theorem assembly_eq_ok_iff {revision : String} {a : Assembly} :
    t.assembly revision = .ok a ↔ t.assemble revision = .ok a.snapshot ∧ a.counts = t.counts := by
  obtain ⟨s, counts⟩ := a
  rw [assembly_eq_map]
  cases t.assemble revision with
  | error why =>
      refine iff_of_false (fun h => by cases h) ?_
      rintro ⟨h, _⟩
      cases h
  | ok built =>
      constructor
      · intro h
        cases h
        exact ⟨rfl, rfl⟩
      · rintro ⟨h, rfl⟩
        cases h
        rfl

/-- Every known definition has a record, by ascending id, and the rows of the
tables say what is in it. -/
theorem describes_of_assembly {revision : String} {a : Assembly}
    (h : t.assembly revision = .ok a) :
    ∃ (ids : List RowId) (key : RowId → Key), Ascending ids ∧ (∀ id, id ∈ ids ↔ t.Known id) ∧
      List.Forall₂ (t.Describes key a.snapshot.files) ids a.snapshot.records := by
  have hbuild := (assembly_eq_ok_iff.mp h).1
  refine ⟨t.inventory.ids, t.key, Inventory.ascending_ids t.definitions, fun id => mem_ids_iff, ?_⟩
  rw [records_eq hbuild, Inventory.ids, List.forall₂_map_left_iff, List.forall₂_map_right_iff,
    List.forall₂_same]
  rintro ⟨id, d⟩ hd
  obtain ⟨row, hrow, rfl⟩ := Option.map_eq_some_iff.mp
    ((Inventory.mem_definitions_iff t.definitions).mp hd)
  obtain ⟨hmem, _⟩ := mem_of_definitionRow? hrow
  refine ⟨rfl, ⟨row, hrow, ?_, rfl, rfl⟩,
    edgesOf_callGraph (mem_ids_iff.mp (List.mem_map_of_mem hd))⟩
  rw [(Snapshot.build_eq_ok_iff.mp hbuild).2.1]
  exact Inventory.getElem?_files t.definitions hmem

end Tables

/-! ## A small build -/

/-- Two functions that call each other: one through a declaration, the other by
a virtual call that its own override class widens. A third call is dropped. -/
def sampleTables : Tables where
  definitions := [⟨2, "b.c", "g()", ⟨1, 3⟩⟩, ⟨1, "a.c", "f(int *)", ⟨1, 4⟩⟩]
  declarations := [⟨⟨7, "b.h", "g()", ⟨1, 1⟩⟩, none⟩]
  callsResolved := [⟨some 2, some 1, 2, 5, true⟩, ⟨some 1, some 9, 3, 1, false⟩]
  callsUnresolved := [⟨some 1, some 7, 2, 3, false⟩]
  overridesResolved := [⟨some 1, some 1⟩, ⟨some 1, some 2⟩]
  overridesUnresolved := []

def sampleSnapshot : Snapshot where
  files := ["a.c", "b.c"]
  records :=
    [⟨⟨0, ⟨"f(int*)"⟩, ⟨1, 4⟩, [⟨.single ⟨3790395259024606487⟩, 2, 3⟩]⟩, ⟨14205690914439878966⟩⟩,
      ⟨⟨1, ⟨"g()"⟩, ⟨1, 3⟩,
        [⟨.candidates [⟨14205690914439878966⟩, ⟨3790395259024606487⟩], 2, 5⟩]⟩,
        ⟨3790395259024606487⟩⟩]
  revision := "r1"
  index := [(⟨14205690914439878966⟩, 0), (⟨3790395259024606487⟩, 1)]

theorem inventory_sample : sampleTables.inventory =
    ⟨["a.c", "b.c"], [(1, ⟨0, ⟨"f(int*)"⟩, ⟨1, 4⟩⟩), (2, ⟨1, ⟨"g()"⟩, ⟨1, 3⟩⟩)]⟩ := by
  cbv

theorem assign_sample :
    Key.assign [⟨"a.c", ⟨"f(int*)"⟩, ⟨1, 4⟩⟩, ⟨"b.c", ⟨"g()"⟩, ⟨1, 3⟩⟩] =
      [⟨14205690914439878966⟩, ⟨3790395259024606487⟩] := by
  rw [Key.assign, Key.ordinals_eq_map_rank]
  decide +kernel

theorem wellFormed_sample : sampleSnapshot.WellFormed where
  file_lt := by decide
  keys_eq := assign_sample.symm
  keys_nodup := by decide
  index_eq := rfl

theorem bodies_sample : sampleTables.bodies = sampleSnapshot.bodies := by
  have hkeys : sampleTables.inventory.keys =
      [(1, ⟨14205690914439878966⟩), (2, ⟨3790395259024606487⟩)] := by
    rw [Inventory.keys, inventory_sample]
    exact congrArg (List.zip [1, 2]) assign_sample
  rw [Tables.bodies, Tables.callGraph, Tables.linker, hkeys, inventory_sample]
  decide +kernel

theorem assemble_sample : sampleTables.assemble "r1" = .ok sampleSnapshot := by
  refine Snapshot.build_eq_ok_iff.mpr ⟨wellFormed_sample, ?_, bodies_sample.symm, rfl⟩
  rw [inventory_sample]
  rfl

theorem describes_sample :
    sampleTables.assembly "r1" = .ok ⟨sampleSnapshot, sampleTables.counts⟩ ∧
      ∃ (ids : List RowId) (key : RowId → Key), Ascending ids ∧
        (∀ id, id ∈ ids ↔ sampleTables.Known id) ∧
        List.Forall₂ (sampleTables.Describes key sampleSnapshot.files) ids
          sampleSnapshot.records := by
  have h : sampleTables.assembly "r1" = .ok ⟨sampleSnapshot, sampleTables.counts⟩ :=
    Tables.assembly_eq_ok_iff.mpr ⟨assemble_sample, rfl⟩
  exact ⟨h, Tables.describes_of_assembly h⟩

end CallAtlas.Extraction
