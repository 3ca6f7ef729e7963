import CallAtlas.Proofs.Extraction.Sharing
import CallAtlas.Proofs.Rolling

/-!
# A partial rebuild against a full one

When only the files that a diff names are built again, and merged into what was
built before, the functions come out as those of a full build: in the same order
and with the same keys, signatures and lines. Their calls do so as far as they
stay on one side. A partial build does not know the functions of other files, so
that its calls of them are dropped; and what was built before is not linked
anew, so that it keeps calls of functions that have changed or gone.
-/

namespace CallAtlas.Merge

open Extraction (Tables rowsOf)
open Snapshot (Located)

/-- The tables of two revisions between which only files of `paths` have
changed. -/
structure Follows (paths : List String) (t u : Tables) : Prop where
  ids_before : t.DistinctIds
  ids : u.DistinctIds
  noOverrides_before : t.NoOverrides
  noOverrides : u.NoOverrides
  signatures : u.DistinctSignatures
  agree : Tables.Agree (· ∉ paths) t u

/-- How a function of a merged snapshot agrees with that of a full build, where
`before` was built from the tables `t`. -/
structure Agrees (t : Tables) (paths : List String) (before full : Snapshot)
    (f g : Located) : Prop where
  path_eq : f.path = g.path
  key_eq : f.key = g.key
  signature_eq : f.signature = g.signature
  lines_eq : f.lines = g.lines
  /-- A function that was built again calls no function of other files. -/
  built : g.path ∈ paths → f.callees = g.callees.filter (full.leadsTo (· ∈ paths))
  /-- Any other function has those of its calls that lead to other files as
  well. -/
  left : g.path ∉ paths →
    (f.callees.filter (before.leadsTo (· ∉ paths))).Sublist
      (g.callees.filter (full.leadsTo (· ∉ paths)))
  /-- It has lost none if no declaration was ambiguous before. -/
  left_eq : g.path ∉ paths → t.DistinctSignatures →
    f.callees.filter (before.leadsTo (· ∉ paths)) = g.callees.filter (full.leadsTo (· ∉ paths))

section

variable {paths : List String} {t u : Tables}

variable {before after full : Snapshot} {revision revision' : String}

theorem agrees_of_built (ids : u.DistinctIds) (noOverrides : u.NoOverrides)
    (signatures : u.DistinctSignatures) (hafter : (u.within paths).assemble revision = .ok after)
    (hfull : u.assemble revision' = .ok full) {row : Extraction.DefinitionRow}
    (hrow : row ∈ (u.within paths).definitions) :
    Agrees t paths before full ((u.within paths).functionOf row) (u.functionOf row) := by
  have hagree := u.agree_within paths
  have hids : (u.within paths).DistinctIds := Tables.distinctIds_within ids
  have hover : (u.within paths).NoOverrides := Tables.noOverrides_within noOverrides
  obtain ⟨hmem, hpath⟩ := Tables.mem_within.mp hrow
  have hall : ∀ e ∈ (u.within paths).callGraph.edgesOf row.id, after.leadsTo (· ∈ paths) e := by
    intro e he
    obtain ⟨call, target, htarget, rfl⟩ := Tables.exists_of_mem_edgesOf hover he
    rw [Tables.leadsTo_edgeTo hids hafter (· ∈ paths) call htarget]
    exact decide_eq_true (Tables.mem_within.mp htarget).2
  have hedges : (u.within paths).callGraph.edgesOf row.id =
      (u.callGraph.edgesOf row.id).filter (full.leadsTo (· ∈ paths)) := by
    rw [Tables.filter_edgesOf ids hfull (· ∈ paths) noOverrides ⟨row, hmem, rfl⟩,
      ← hagree.keptEdgesOf_eq hids ids (Tables.distinctSignatures_within signatures) signatures hrow
        (decide_eq_true hpath),
      ← Tables.filter_edgesOf hids hafter (· ∈ paths) hover ⟨row, hrow, rfl⟩,
      List.filter_eq_self.mpr hall]
  constructor
  case path_eq => simp
  case key_eq => simpa using hagree.key_eq hids ids hrow (decide_eq_true hpath)
  case signature_eq => simp
  case lines_eq => simp
  case built => simpa using fun _ => hedges
  case left => exact fun hother => absurd hpath hother
  case left_eq => exact fun hother => absurd hpath hother

theorem agrees_of_left (h : Follows paths t u) (hbefore : t.assemble revision = .ok before)
    (hfull : u.assemble revision' = .ok full) {row : Extraction.DefinitionRow}
    (hrow : row ∈ t.definitions) (hpath : row.path ∉ paths) :
    Agrees t paths before full (t.functionOf row) (u.functionOf row) := by
  have hkeep : decide (row.path ∉ paths) = true := decide_eq_true hpath
  have hrow' := (h.agree.definitions row hkeep).mp hrow
  have hedges := Tables.filter_edgesOf h.ids_before hbefore (· ∉ paths) h.noOverrides_before
    ⟨row, hrow, rfl⟩
  have hedges' := Tables.filter_edgesOf h.ids hfull (· ∉ paths) h.noOverrides ⟨row, hrow', rfl⟩
  constructor
  case path_eq => simp
  case key_eq => simpa using h.agree.key_eq h.ids_before h.ids hrow hkeep
  case signature_eq => simp
  case lines_eq => simp
  case built => exact fun hnamed => absurd hnamed hpath
  case left =>
    intro _
    rw [Tables.callees_functionOf, Tables.callees_functionOf, hedges, hedges']
    exact h.agree.sublist_keptEdgesOf h.ids_before h.ids h.signatures hrow hkeep
  case left_eq =>
    intro _ hsignatures
    rw [Tables.callees_functionOf, Tables.callees_functionOf, hedges, hedges']
    exact h.agree.keptEdgesOf_eq h.ids_before h.ids hsignatures h.signatures hrow hkeep

theorem forall₂_agrees_of_built (h : Follows paths t u)
    (hafter : (u.within paths).assemble revision = .ok after)
    (hfull : u.assemble revision' = .ok full) {path : String} (hpath : path ∈ paths) :
    List.Forall₂ (Agrees t paths before full) (after.located.filter (·.path = path))
      (full.located.filter (·.path = path)) := by
  have hrows : rowsOf u.definitions path = rowsOf (u.within paths).definitions path :=
    Extraction.rowsOf_eq h.ids (Tables.distinctIds_within h.ids) fun row hrow =>
      ((u.agree_within paths).definitions row (decide_eq_true (hrow ▸ hpath))).symm
  rw [Tables.functionsOf_path (Tables.distinctIds_within h.ids) hafter,
    Tables.functionsOf_path h.ids hfull, hrows, List.forall₂_map_left_iff,
    List.forall₂_map_right_iff, List.forall₂_same]
  intro row hrow
  exact agrees_of_built h.ids h.noOverrides h.signatures hafter hfull
    (Extraction.mem_rowsOf.mp hrow).1

theorem forall₂_agrees_of_left (h : Follows paths t u)
    (hbefore : t.assemble revision = .ok before) (hfull : u.assemble revision' = .ok full)
    {path : String} (hpath : path ∉ paths) :
    List.Forall₂ (Agrees t paths before full) (before.located.filter (·.path = path))
      (full.located.filter (·.path = path)) := by
  have hrows : rowsOf u.definitions path = rowsOf t.definitions path :=
    Extraction.rowsOf_eq h.ids h.ids_before fun row hrow =>
      (h.agree.definitions row (decide_eq_true (hrow ▸ hpath))).symm
  rw [Tables.functionsOf_path h.ids_before hbefore, Tables.functionsOf_path h.ids hfull, hrows,
    List.forall₂_map_left_iff, List.forall₂_map_right_iff, List.forall₂_same]
  intro row hrow
  obtain ⟨hmem, rfl⟩ := Extraction.mem_rowsOf.mp hrow
  exact agrees_of_left h hbefore hfull hmem hpath

end

/-- Every file of the merged snapshot has the functions that it has in a full
build. Those of files that the diff does not name are as they were before. -/
theorem agrees_functionsIn {t u : Tables} {diff : String} {patch : Patch}
    (hparse : Patch.parse diff = .ok patch) (h : Follows patch.paths t u)
    {before after full : Snapshot} {revision revision' revision'' : String}
    (hbefore : t.assemble revision = .ok before)
    (hafter : (u.within patch.paths).assemble revision' = .ok after)
    (hfull : u.assemble revision'' = .ok full) {outcome : Outcome}
    (hmerge : alongDiff before after diff = .ok outcome) (path : String) :
    List.Forall₂ (Agrees t patch.paths before full)
        ((outcome.snapshot.functionsIn path).map outcome.snapshot.locate)
        ((full.functionsIn path).map full.locate) ∧
      (path ∉ patch.paths →
        (outcome.snapshot.functionsIn path).map outcome.snapshot.locate =
          (before.functionsIn path).map before.locate) := by
  obtain ⟨patch', hparse', hmerged⟩ := alongDiff_eq_ok_iff.mp hmerge
  obtain rfl : patch = patch' := Except.ok.inj (hparse.symm.trans hparse')
  obtain ⟨hwellBefore, hfilesBefore⟩ := Rolling.wellFormed_of_assemble hbefore
  obtain ⟨hwellAfter, hfilesAfter⟩ := Rolling.wellFormed_of_assemble hafter
  obtain ⟨hwellFull, hfilesFull⟩ := Rolling.wellFormed_of_assemble hfull
  rw [Snapshot.map_locate_functionsIn (wellFormed_alongPatch hmerged)
      (nodup_files_alongPatch hwellBefore hmerged),
    Snapshot.map_locate_functionsIn hwellFull hfilesFull,
    Snapshot.map_locate_functionsIn hwellBefore hfilesBefore]
  by_cases hnamed : path ∈ patch.paths
  · refine ⟨?_, fun hother => absurd hnamed hother⟩
    rw [Rolling.located_of_named hwellBefore hwellAfter hmerged hnamed]
    exact forall₂_agrees_of_built h hafter hfull hnamed
  · have hleft := Rolling.located_of_not_named hwellBefore hwellAfter hmerged hnamed
    refine ⟨?_, fun _ => hleft⟩
    rw [hleft]
    exact forall₂_agrees_of_left h hbefore hfull hnamed

/-! ## A file that calls and is called -/

/-- `g` calls `f`, and `h` through a declaration that a function of the first
file leaves ambiguous. -/
def editTables : Tables where
  definitions := [⟨1, "a.c", "f()", ⟨1, 3⟩⟩, ⟨2, "b.c", "g()", ⟨1, 3⟩⟩,
    ⟨3, "c.c", "h()", ⟨1, 3⟩⟩, ⟨4, "a.c", "h()", ⟨5, 7⟩⟩]
  declarations := [⟨⟨7, "c.h", "h()", ⟨1, 1⟩⟩, none⟩]
  callsResolved := [⟨some 2, some 1, 2, 1, false⟩]
  callsUnresolved := [⟨some 2, some 7, 3, 1, false⟩]
  overridesResolved := []
  overridesUnresolved := []

/-- The first file has been written anew, and what it defines now calls `g`. -/
def editedTables : Tables where
  definitions := [⟨5, "a.c", "e()", ⟨1, 3⟩⟩, ⟨2, "b.c", "g()", ⟨1, 3⟩⟩, ⟨3, "c.c", "h()", ⟨1, 3⟩⟩]
  declarations := [⟨⟨7, "c.h", "h()", ⟨1, 1⟩⟩, none⟩]
  callsResolved := [⟨some 2, some 1, 2, 1, false⟩, ⟨some 5, some 2, 2, 1, false⟩]
  callsUnresolved := [⟨some 2, some 7, 3, 1, false⟩]
  overridesResolved := []
  overridesUnresolved := []

def editDiff : String :=
  "--- a/a.c\n+++ b/a.c\n@@ -1 +1 @@\n-x\n+y\n"

def editPatch : Patch :=
  ⟨[⟨some "a.c", some "a.c", [.deletion 1, .insertion 1]⟩]⟩

theorem follows_edit : Follows editPatch.paths editTables editedTables where
  ids_before := by decide
  ids := by decide
  noOverrides_before := ⟨rfl, rfl⟩
  noOverrides := ⟨rfl, rfl⟩
  signatures := by decide +kernel
  agree := {
    definitions := by
      intro row hkeep
      have hother : row.path ≠ "a.c" := by
        rintro heq
        rw [heq] at hkeep
        revert hkeep
        decide
      have hone (id : Int) (signature : String) (lines : Interval) :
          row ≠ ⟨id, "a.c", signature, lines⟩ := fun heq => hother (congrArg (·.path) heq)
      simp [editTables, editedTables, hone]
    callsResolved := by decide +kernel
    callsUnresolved := by decide +kernel
    declarations := fun _ _ _ _ _ _ _ _ => rfl }

def builtBefore : Snapshot where
  files := ["a.c", "b.c", "c.c"]
  records :=
    [⟨⟨0, ⟨"f()"⟩, ⟨1, 3⟩, []⟩, ⟨6810523394191592565⟩⟩,
      ⟨⟨1, ⟨"g()"⟩, ⟨1, 3⟩, [⟨.single ⟨6810523394191592565⟩, 2, 1⟩]⟩, ⟨3790395259024606487⟩⟩,
      ⟨⟨2, ⟨"h()"⟩, ⟨1, 3⟩, []⟩, ⟨17930519164349528557⟩⟩,
      ⟨⟨0, ⟨"h()"⟩, ⟨5, 7⟩, []⟩, ⟨14512231816271700079⟩⟩]
  revision := "r1"
  index := [(⟨6810523394191592565⟩, 0), (⟨3790395259024606487⟩, 1), (⟨17930519164349528557⟩, 2),
    (⟨14512231816271700079⟩, 3)]

def builtInPart : Snapshot where
  files := ["a.c"]
  records := [⟨⟨0, ⟨"e()"⟩, ⟨1, 3⟩, []⟩, ⟨10212979765265577848⟩⟩]
  revision := "r2"
  index := [(⟨10212979765265577848⟩, 0)]

def builtInFull : Snapshot where
  files := ["b.c", "c.c", "a.c"]
  records :=
    [⟨⟨0, ⟨"g()"⟩, ⟨1, 3⟩, [⟨.single ⟨17930519164349528557⟩, 3, 1⟩]⟩, ⟨3790395259024606487⟩⟩,
      ⟨⟨1, ⟨"h()"⟩, ⟨1, 3⟩, []⟩, ⟨17930519164349528557⟩⟩,
      ⟨⟨2, ⟨"e()"⟩, ⟨1, 3⟩, [⟨.single ⟨3790395259024606487⟩, 2, 1⟩]⟩, ⟨10212979765265577848⟩⟩]
  revision := "r2"
  index := [(⟨3790395259024606487⟩, 0), (⟨17930519164349528557⟩, 1), (⟨10212979765265577848⟩, 2)]

def editOutcome : Outcome where
  snapshot :=
    { files := ["b.c", "c.c", "a.c"]
      records :=
        [⟨⟨0, ⟨"g()"⟩, ⟨1, 3⟩, [⟨.single ⟨6810523394191592565⟩, 2, 1⟩]⟩, ⟨3790395259024606487⟩⟩,
          ⟨⟨1, ⟨"h()"⟩, ⟨1, 3⟩, []⟩, ⟨17930519164349528557⟩⟩,
          ⟨⟨2, ⟨"e()"⟩, ⟨1, 3⟩, []⟩, ⟨10212979765265577848⟩⟩]
      revision := "r2"
      index := [(⟨3790395259024606487⟩, 0), (⟨17930519164349528557⟩, 1),
        (⟨10212979765265577848⟩, 2)] }
  changes := .ofPatch builtBefore builtInPart editPatch
  partition := ⟨[], [], ["a.c"], []⟩

theorem wellFormed_builtBefore : builtBefore.WellFormed := by
  decide +kernel

theorem wellFormed_builtInPart : builtInPart.WellFormed := by
  decide +kernel

theorem wellFormed_builtInFull : builtInFull.WellFormed := by
  decide +kernel

theorem wellFormed_editOutcome : editOutcome.snapshot.WellFormed where
  file_lt := by decide
  keys_eq := wellFormed_builtInFull.keys_eq
  keys_nodup := by decide
  index_eq := rfl

/-- What a build records, once it is known which keys its functions get. -/
theorem assemble_of_keys {t : Tables} {s : Snapshot} (inv : Extraction.Inventory)
    (hs : s.WellFormed) (hinventory : t.inventory = inv) (hfiles : s.files = inv.files)
    (hsources : Snapshot.sources s.files s.bodies = inv.sources)
    (hbodies : s.bodies = inv.definitions.map fun (id, d) =>
      ⟨d.file, d.signature, d.lines,
        (Extraction.Linker.graph
          ⟨inv.ids.zip (s.records.map (·.key)), .bind t.declarations inv,
            .ofRows t.overridesResolved t.overridesUnresolved (.bind t.declarations inv)⟩
          t.callsResolved t.callsUnresolved).edgesOf id⟩) :
    t.assemble s.revision = .ok s := by
  subst hinventory
  refine Snapshot.build_eq_ok_iff.mpr ⟨hs, hfiles, ?_, rfl⟩
  rw [hs.keys_eq, hsources] at hbodies
  rw [hbodies, Tables.bodies_eq]
  rfl

theorem assemble_builtBefore : editTables.assemble "r1" = .ok builtBefore :=
  assemble_of_keys ⟨["a.c", "b.c", "c.c"], [(1, ⟨0, ⟨"f()"⟩, ⟨1, 3⟩⟩),
    (2, ⟨1, ⟨"g()"⟩, ⟨1, 3⟩⟩), (3, ⟨2, ⟨"h()"⟩, ⟨1, 3⟩⟩), (4, ⟨0, ⟨"h()"⟩, ⟨5, 7⟩⟩)]⟩
    wellFormed_builtBefore (by cbv) rfl (by rfl) (by decide +kernel)

theorem assemble_builtInPart :
    (editedTables.within editPatch.paths).assemble "r2" = .ok builtInPart :=
  assemble_of_keys ⟨["a.c"], [(5, ⟨0, ⟨"e()"⟩, ⟨1, 3⟩⟩)]⟩
    wellFormed_builtInPart (by cbv) rfl (by rfl) (by decide +kernel)

theorem assemble_builtInFull : editedTables.assemble "r2" = .ok builtInFull :=
  assemble_of_keys ⟨["b.c", "c.c", "a.c"], [(2, ⟨0, ⟨"g()"⟩, ⟨1, 3⟩⟩),
    (3, ⟨1, ⟨"h()"⟩, ⟨1, 3⟩⟩), (5, ⟨2, ⟨"e()"⟩, ⟨1, 3⟩⟩)]⟩
    wellFormed_builtInFull (by cbv) rfl (by rfl) (by decide +kernel)

theorem alongPatch_edit : alongPatch builtBefore builtInPart editPatch = .ok editOutcome := by
  refine alongPatch_eq_ok_iff.mpr ⟨by decide +kernel, rfl, Snapshot.build_eq_ok_iff.mpr ?_⟩
  exact ⟨wellFormed_editOutcome, by decide +kernel, by decide +kernel, rfl⟩

theorem alongDiff_edit : alongDiff builtBefore builtInPart editDiff = .ok editOutcome :=
  alongDiff_eq_ok_iff.mpr ⟨editPatch, by rfl, alongPatch_edit⟩

theorem agrees_functionsIn_edit :
    Patch.parse editDiff = .ok editPatch ∧ Follows editPatch.paths editTables editedTables ∧
      editTables.assemble "r1" = .ok builtBefore ∧
      (editedTables.within editPatch.paths).assemble "r2" = .ok builtInPart ∧
      editedTables.assemble "r2" = .ok builtInFull ∧
      alongDiff builtBefore builtInPart editDiff = .ok editOutcome ∧
      List.Forall₂ (Agrees editTables editPatch.paths builtBefore builtInFull)
        ((editOutcome.snapshot.functionsIn "b.c").map editOutcome.snapshot.locate)
        ((builtInFull.functionsIn "b.c").map builtInFull.locate) ∧
      ("b.c" ∉ editPatch.paths →
        (editOutcome.snapshot.functionsIn "b.c").map editOutcome.snapshot.locate =
          (builtBefore.functionsIn "b.c").map builtBefore.locate) := by
  have hparse : Patch.parse editDiff = .ok editPatch := by rfl
  exact ⟨hparse, follows_edit, assemble_builtBefore, assemble_builtInPart, assemble_builtInFull,
    alongDiff_edit, agrees_functionsIn hparse follows_edit assemble_builtBefore
      assemble_builtInPart assemble_builtInFull alongDiff_edit "b.c"⟩

/-- With the merge `e` has lost its call of `g`, which still calls the function
that is gone and does not call `h`. -/
theorem calls_differ_from_full_build :
    Patch.parse editDiff = .ok editPatch ∧ Follows editPatch.paths editTables editedTables ∧
      editTables.assemble "r1" = .ok builtBefore ∧
      (editedTables.within editPatch.paths).assemble "r2" = .ok builtInPart ∧
      editedTables.assemble "r2" = .ok builtInFull ∧
      alongDiff builtBefore builtInPart editDiff = .ok editOutcome ∧
      (builtInFull.functionsIn "a.c").map (·.callees) =
        [[⟨.single ⟨3790395259024606487⟩, 2, 1⟩]] ∧
      (editOutcome.snapshot.functionsIn "a.c").map (·.callees) = [[]] ∧
      (builtInFull.functionsIn "b.c").map (·.callees) =
        [[⟨.single ⟨17930519164349528557⟩, 3, 1⟩]] ∧
      (editOutcome.snapshot.functionsIn "b.c").map (·.callees) =
        [[⟨.single ⟨6810523394191592565⟩, 2, 1⟩]] :=
  ⟨by rfl, follows_edit, assemble_builtBefore, assemble_builtInPart, assemble_builtInFull,
    alongDiff_edit, by decide, by decide, by decide, by decide⟩

end CallAtlas.Merge
