import CallAtlas.Proofs.Extraction.Assembly
import CallAtlas.Proofs.Snapshot.Constructed

/-!
# The layout of a merged snapshot

What a merge puts where: how the paths of the patch are sorted, which functions
stand in the merged snapshot in which order, and which files it lists. Nothing
that the patch does not name is moved or renamed.
-/

namespace CallAtlas.Merge

/-- The layout of a merge of `after` into `before` along a patch. -/
structure Layout (before after : Snapshot) (patch : Patch) (outcome : Outcome) : Prop where
  disjoint : [outcome.partition.deleted, outcome.partition.inserted, outcome.partition.modified,
    outcome.partition.untracked].Pairwise List.Disjoint
  mem_paths : ∀ path, path ∈ patch.paths ↔
    path ∈ outcome.partition.deleted ∨ path ∈ outcome.partition.inserted ∨
      path ∈ outcome.partition.modified ∨ path ∈ outcome.partition.untracked
  paths : outcome.partition.paths = patch.paths
  /-- The functions of files that are not touched, then those of the changed
  ones, with the keys they had. -/
  located : outcome.snapshot.located =
    before.located.filter (·.path ∉ outcome.partition.touched) ++
      after.located.filter (·.path ∈ outcome.partition.changed)
  nodup_files : outcome.snapshot.files.Nodup
  /-- The files that are not touched, with functions or without, then those of
  the functions that have come in. -/
  files : outcome.snapshot.files =
    before.files.filter (· ∉ outcome.partition.touched) ++
      ((after.located.filter (·.path ∈ outcome.partition.changed)).map (·.path)).eraseDups
  revision : outcome.snapshot.revision = after.revision
  untouched : outcome.partition.touched = [] →
    outcome.snapshot = before.withRevision after.revision
  deleted : ∀ path ∈ outcome.partition.deleted, path ∉ outcome.snapshot.files
  untracked : ∀ path ∈ outcome.partition.untracked, path ∉ outcome.snapshot.files

section

variable {before after : Snapshot} {patch : Patch} {outcome : Outcome}

theorem disjoint_partition (paths : List String) (before after : Snapshot) :
    [(Partition.ofPaths paths before after).deleted,
      (Partition.ofPaths paths before after).inserted,
      (Partition.ofPaths paths before after).modified,
      (Partition.ofPaths paths before after).untracked].Pairwise List.Disjoint := by
  simp only [List.pairwise_cons, List.mem_cons, List.not_mem_nil, or_false, forall_eq_or_imp,
    forall_eq, false_implies, implies_true, and_true, List.Pairwise.nil, List.Disjoint,
    Partition.mem_deleted, Partition.mem_inserted, Partition.mem_modified,
    Partition.mem_untracked]
  tauto

theorem map_path_added (p : Partition) (after : Snapshot) :
    (added after p).map (·.path) =
      (after.located.filter (·.path ∈ p.changed)).map (·.path) := by
  rw [added, Snapshot.located, Snapshot.sites, Snapshot.bodies, List.map_map, List.filter_map,
    List.filter_map, List.map_map, List.map_map]
  rfl

theorem not_mem_files {path : String} (hbefore : before.WellFormed)
    (h : alongPatch before after patch = .ok outcome) (hnamed : path ∈ patch.paths)
    (hgone : path ∉ after.files) : path ∉ outcome.snapshot.files := by
  have hpartition := (alongPatch_eq_ok_iff.mp h).1
  rw [files_alongPatch hbefore h, List.mem_append, not_or]
  constructor
  · intro hleft
    obtain ⟨hfile, hkept⟩ := List.mem_filter.mp (List.mem_eraseDups.mp hleft)
    rw [decide_eq_true_eq, hpartition, Partition.mem_touched] at hkept
    exact hkept ⟨hnamed, Or.inl hfile⟩
  · intro hadded
    obtain ⟨site, hsite, rfl⟩ := List.mem_map.mp (List.mem_eraseDups.mp hadded)
    have hchanged : site.path ∈ outcome.partition.changed := by
      simpa using List.of_mem_filter hsite
    rw [hpartition, Partition.mem_changed] at hchanged
    exact hgone hchanged.2

/-- A merge that touches no file only takes over the revision. -/
theorem eq_withRevision (hbefore : before.WellFormed) (hfiles : before.files.Nodup)
    (h : alongPatch before after patch = .ok outcome) (htouched : outcome.partition.touched = []) :
    outcome.snapshot = before.withRevision after.revision := by
  have hadded : added after outcome.partition = [] := by
    rw [added, List.filter_eq_nil_iff]
    intro site _ hchanged
    have hmem := Partition.changed_subset_touched (of_decide_eq_true hchanged)
    rw [htouched] at hmem
    cases hmem
  have hrevision := (Snapshot.build_eq_ok_iff.mp (alongPatch_eq_ok_iff.mp h).2.2).2.2.2
  refine (wellFormed_alongPatch h).ext_sites (hbefore.withRevision after.revision) hfiles ?_ ?_
    hrevision
  · rw [files_alongPatch hbefore h, hadded, leftFiles, htouched]
    simp [eraseDups_of_nodup hfiles, Snapshot.withRevision]
  · rw [sites_alongPatch hbefore h, hadded, htouched]
    simp [Snapshot.withRevision, Snapshot.sites, Snapshot.bodies]

theorem layout_of_alongPatch (hbefore : before.Constructed) (hafter : after.Constructed)
    (hfiles : before.files.Nodup) (h : alongPatch before after patch = .ok outcome) :
    Layout before after patch outcome := by
  have hbuilt := hbefore.wellFormed
  obtain ⟨hpartition, _, hbuild⟩ := alongPatch_eq_ok_iff.mp h
  have hrevision := (Snapshot.build_eq_ok_iff.mp hbuild).2.2.2
  refine ⟨?_, ?_, ?_, located_alongPatch hbuilt hafter.wellFormed h,
    nodup_files_alongPatch hbuilt h, ?_, hrevision, eq_withRevision hbuilt hfiles h, ?_, ?_⟩
  · rw [hpartition]
    exact disjoint_partition patch.paths before after
  · intro path
    rw [hpartition, Partition.mem_deleted, Partition.mem_inserted, Partition.mem_modified,
      Partition.mem_untracked]
    tauto
  · rw [hpartition]
    refine Ascending.ext (Ascending.ofList_ascending _) (Ascending.ofList_ascending _) ?_
    intro path
    exact Partition.mem_paths patch.paths before after
  · rw [files_alongPatch hbuilt h, map_path_added, leftFiles,
      eraseDups_of_nodup (hfiles.filter _)]
  · intro path hpath
    rw [hpartition, Partition.mem_deleted] at hpath
    exact not_mem_files hbuilt h hpath.1 hpath.2.2
  · intro path hpath
    rw [hpartition, Partition.mem_untracked] at hpath
    exact not_mem_files hbuilt h hpath.1 hpath.2.2

end

/-! ## A small merge -/

open Extraction (sampleSnapshot wellFormed_sample assemble_sample)

/-- One file is built again, one that the patch names is nowhere to be found. -/
def samplePatch : Patch :=
  ⟨[⟨some "b.c", some "b.c", [.insertion 4]⟩, ⟨none, some "d.c", []⟩]⟩

def sampleOutcome : Outcome where
  snapshot := sampleSnapshot.withRevision "r2"
  changes := .ofPatch sampleSnapshot (sampleSnapshot.withRevision "r2") samplePatch
  partition := ⟨[], [], ["b.c"], ["d.c"]⟩

theorem alongPatch_sample :
    alongPatch sampleSnapshot (sampleSnapshot.withRevision "r2") samplePatch =
      .ok sampleOutcome := by
  refine alongPatch_eq_ok_iff.mpr ⟨by decide +kernel, rfl, Snapshot.build_eq_ok_iff.mpr ?_⟩
  exact ⟨wellFormed_sample.withRevision "r2", by decide +kernel, by decide +kernel, rfl⟩

theorem layout_sample :
    sampleSnapshot.Constructed ∧ (sampleSnapshot.withRevision "r2").Constructed ∧
      sampleSnapshot.files.Nodup ∧
      Layout sampleSnapshot (sampleSnapshot.withRevision "r2") samplePatch sampleOutcome := by
  have hbefore : sampleSnapshot.Constructed := .assembled assemble_sample
  have hfiles : sampleSnapshot.files.Nodup := by decide
  exact ⟨hbefore, hbefore.revised "r2", hfiles,
    layout_of_alongPatch hbefore (hbefore.revised "r2") hfiles alongPatch_sample⟩

end CallAtlas.Merge
