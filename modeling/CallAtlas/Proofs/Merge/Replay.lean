import CallAtlas.Proofs.Merge.Dangling
import CallAtlas.Proofs.Snapshot.RoundTrip

/-!
# Merging a build again

An update that is merged a second time changes nothing, although the paths of
the patch are sorted anew. What comes from the later snapshot is chosen by the
later snapshot alone, what is left of the earlier one is named by no path of the
patch, and the file list is already in the order in which it would be made.
-/

namespace CallAtlas.Merge

open Extraction (sampleSnapshot)
open Snapshot (bodyIn siteIn)

/-! ## Parts by paths -/

section

variable {before : Snapshot} (after : Snapshot) (p : Partition)

theorem nodup_parts_fst (hbefore : before.WellFormed) : (parts before after p).1.Nodup := by
  rw [parts_eq after p hbefore, move_snd]
  exact nodup_enlistAll (nodup_eraseDups _) _

theorem parts_bodies (hbefore : before.WellFormed) :
    (parts before after p).2 =
      (before.sites.filter (·.path ∉ p.touched) ++ added after p).map
        (bodyIn (parts before after p).1) := by
  rw [← map_siteIn_parts after p hbefore, List.map_map]
  conv_lhs => rw [← List.map_id (parts before after p).2]
  refine List.map_congr_left fun b hb => ?_
  exact (Snapshot.bodyIn_siteIn (nodup_parts_fst after p hbefore)
    (file_lt_of_mem_parts hb)).symm

end

/-! ## The second merge -/

theorem filter_not_changed {α : Type} (path : α → String) {p : Partition} {left added : List α}
    (hleft : ∀ a ∈ left, path a ∉ p.touched) (hadded : ∀ a ∈ added, path a ∈ p.changed) :
    (left ++ added).filter (path · ∉ p.changed) = left := by
  have hkept : left.filter (path · ∉ p.changed) = left := by
    rw [List.filter_eq_self]
    intro a ha
    simpa using fun hchanged => hleft a ha (Partition.changed_subset_touched hchanged)
  have hgone : added.filter (path · ∉ p.changed) = [] := by
    rw [List.filter_eq_nil_iff]
    intro a ha
    simpa using hadded a ha
  rw [List.filter_append, hkept, hgone, List.append_nil]

section

variable {before after : Snapshot} {patch : Patch} {first : Outcome}

/-- A path of the patch is in the merged file list only if the later snapshot
has it. -/
theorem mem_after_of_mem_merged (hbefore : before.WellFormed)
    (h : alongPatch before after patch = .ok first) {path : String}
    (hnamed : path ∈ patch.paths) (hfile : path ∈ first.snapshot.files) : path ∈ after.files := by
  by_contra hgone
  exact not_mem_files hbefore h hnamed hgone hfile

section

variable (h : alongPatch before after patch = .ok first)

include h

/-- The later snapshot alone decides which files are taken from it. -/
theorem changed_again :
    (Partition.ofPaths patch.paths first.snapshot after).changed = first.partition.changed := by
  rw [(alongPatch_eq_ok_iff.mp h).1]
  refine Ascending.ext (Ascending.ofList_ascending _) (Ascending.ofList_ascending _) fun path => ?_
  rw [Partition.mem_changed, Partition.mem_changed]

theorem touched_again (hbefore : before.WellFormed) :
    (Partition.ofPaths patch.paths first.snapshot after).touched = first.partition.changed := by
  rw [(alongPatch_eq_ok_iff.mp h).1]
  refine Ascending.ext (Ascending.ofList_ascending _) (Ascending.ofList_ascending _) fun path => ?_
  rw [Partition.mem_touched, Partition.mem_changed]
  constructor
  · rintro ⟨hnamed, hfile | hfile⟩
    · exact ⟨hnamed, mem_after_of_mem_merged hbefore h hnamed hfile⟩
    · exact ⟨hnamed, hfile⟩
  · rintro ⟨hnamed, hfile⟩
    exact ⟨hnamed, Or.inr hfile⟩

theorem added_again :
    added after (Partition.ofPaths patch.paths first.snapshot after) =
      added after first.partition := by
  rw [added, added, changed_again h]

/-- What was left the first time is left the second time. -/
theorem leftFiles_again (hbefore : before.WellFormed) :
    leftFiles first.snapshot (Partition.ofPaths patch.paths first.snapshot after) =
      leftFiles before first.partition := by
  have hleft : ∀ path ∈ leftFiles before first.partition, path ∉ first.partition.touched := by
    intro path hpath
    simpa using List.of_mem_filter (List.mem_eraseDups.mp hpath)
  have hadded : ∀ path ∈ ((added after first.partition).map (·.path)).eraseDups,
      path ∈ first.partition.changed := by
    intro path hpath
    obtain ⟨site, hsite, rfl⟩ := List.mem_map.mp (List.mem_eraseDups.mp hpath)
    simpa using List.of_mem_filter hsite
  rw [leftFiles, touched_again h hbefore, files_alongPatch hbefore h,
    filter_not_changed (fun path => path) hleft hadded]
  exact eraseDups_of_nodup (nodup_eraseDups _)

theorem left_again (hbefore : before.WellFormed) :
    first.snapshot.sites.filter
        (·.path ∉ (Partition.ofPaths patch.paths first.snapshot after).touched) =
      before.sites.filter (·.path ∉ first.partition.touched) := by
  have hleft : ∀ site ∈ before.sites.filter (·.path ∉ first.partition.touched),
      site.path ∉ first.partition.touched := by
    intro site hsite
    simpa using List.of_mem_filter hsite
  have hadded : ∀ site ∈ added after first.partition, site.path ∈ first.partition.changed := by
    intro site hsite
    simpa using List.of_mem_filter hsite
  rw [touched_again h hbefore, sites_alongPatch hbefore h,
    filter_not_changed Snapshot.Site.path hleft hadded]

/-- The second merge comes out with the files and bodies of the first. -/
theorem parts_again (hbefore : before.WellFormed) :
    parts first.snapshot after (.ofPaths patch.paths first.snapshot after) =
      (first.snapshot.files, first.snapshot.bodies) := by
  have hmerged := wellFormed_alongPatch h
  have hfiles : (parts first.snapshot after (.ofPaths patch.paths first.snapshot after)).1 =
      first.snapshot.files := by
    rw [parts_files after _ hmerged, leftFiles_again h hbefore, added_again h,
      files_alongPatch hbefore h]
  refine Prod.ext hfiles ?_
  rw [parts_bodies after _ hmerged, hfiles, left_again h hbefore, added_again h,
    ← sites_alongPatch hbefore h, hmerged.bodies_eq (nodup_files_alongPatch hbefore h)]

end

/-- How a merge that is made again relates to the one made first. -/
structure Repeats (after : Snapshot) (first again : Outcome) : Prop where
  snapshot_eq : again.snapshot = first.snapshot
  changed_eq : again.partition.changed = first.partition.changed
  deleted_eq : again.partition.deleted = []
  deleted : ∀ path ∈ first.partition.deleted, path ∈ again.partition.untracked
  /-- An inserted file is there now, if any function stands in it. -/
  inserted : ∀ r ∈ after.records, after.pathOf r ∈ first.partition.inserted →
    after.pathOf r ∈ again.partition.modified

theorem path_mem_merged (hbefore : before.WellFormed)
    (h : alongPatch before after patch = .ok first) {r : Record} (hr : r ∈ after.records)
    (hchanged : after.pathOf r ∈ first.partition.changed) :
    after.pathOf r ∈ first.snapshot.files := by
  have hsite : siteIn after.files r.toBody ∈ added after first.partition :=
    List.mem_filter.mpr ⟨List.mem_map_of_mem (List.mem_map_of_mem hr), decide_eq_true hchanged⟩
  rw [files_alongPatch hbefore h, List.mem_append]
  exact Or.inr (List.mem_eraseDups.mpr (List.mem_map_of_mem hsite))

theorem repeats_ofPaths (hbefore : before.WellFormed)
    (h : alongPatch before after patch = .ok first) (changes : ChangeSet) :
    Repeats after first
      ⟨first.snapshot, changes, .ofPaths patch.paths first.snapshot after⟩ := by
  have hpartition := (alongPatch_eq_ok_iff.mp h).1
  refine ⟨rfl, changed_again h, ?_, ?_, ?_⟩
  · refine List.eq_nil_iff_forall_not_mem.mpr fun path hpath => ?_
    obtain ⟨hnamed, hfile, hgone⟩ := (Partition.mem_deleted _ _ _).mp hpath
    exact hgone (mem_after_of_mem_merged hbefore h hnamed hfile)
  · intro path hpath
    rw [hpartition, Partition.mem_deleted] at hpath
    obtain ⟨hnamed, -, hgone⟩ := hpath
    exact (Partition.mem_untracked _ _ _).mpr
      ⟨hnamed, not_mem_files hbefore h hnamed hgone, hgone⟩
  · intro r hr hpath
    have hchanged : after.pathOf r ∈ first.partition.changed := by
      rw [Partition.changed, Ascending.mem_ofList]
      exact List.mem_append_left _ hpath
    rw [hpartition, Partition.mem_inserted] at hpath
    obtain ⟨hnamed, -, hfile⟩ := hpath
    exact (Partition.mem_modified _ _ _).mpr
      ⟨hnamed, path_mem_merged hbefore h hr hchanged, hfile⟩

/-- A build that is merged again into what came out of its merge goes through
and leaves the snapshot as it is. -/
theorem alongDiff_again (hbefore : before.Constructed) {diff : String}
    (h : alongDiff before after diff = .ok first) :
    ∃ again, alongDiff first.snapshot after diff = .ok again ∧ Repeats after first again := by
  obtain ⟨patch, hparse, hmerge⟩ := alongDiff_eq_ok_iff.mp h
  have hwell := hbefore.wellFormed
  refine ⟨⟨first.snapshot, .ofPatch first.snapshot after patch,
    .ofPaths patch.paths first.snapshot after⟩, ?_, repeats_ofPaths hwell hmerge _⟩
  have hbuild : Snapshot.build first.snapshot.files first.snapshot.bodies after.revision =
      .ok first.snapshot :=
    Snapshot.build_eq_ok_iff.mpr ⟨wellFormed_alongPatch hmerge, rfl, rfl,
      (Snapshot.build_eq_ok_iff.mp (alongPatch_eq_ok_iff.mp hmerge).2.2).2.2.2⟩
  refine alongDiff_eq_ok_iff.mpr ⟨patch, hparse, alongPatch_eq_ok_iff.mpr ⟨rfl, rfl, ?_⟩⟩
  rw [parts_again hmerge hwell]
  exact hbuild

end

/-! ## A file list with repetitions -/

/-- A snapshot that lists a file twice and another one without functions. -/
def repeatedBefore : Snapshot where
  files := ["b.c", "c.c", "b.c"]
  records := [⟨⟨2, ⟨"g()"⟩, ⟨1, 3⟩, []⟩, ⟨3790395259024606487⟩⟩]
  revision := "r0"
  index := [(⟨3790395259024606487⟩, 0)]

def repeatedOutcome : Outcome where
  snapshot :=
    { files := ["b.c", "c.c", "a.c"]
      records := [⟨⟨0, ⟨"g()"⟩, ⟨1, 3⟩, []⟩, ⟨3790395259024606487⟩⟩,
        ⟨⟨2, ⟨"f(int*)"⟩, ⟨1, 4⟩, [⟨.single ⟨3790395259024606487⟩, 2, 3⟩]⟩,
          ⟨14205690914439878966⟩⟩]
      revision := "r1"
      index := [(⟨3790395259024606487⟩, 0), (⟨14205690914439878966⟩, 1)] }
  changes := .ofPatch repeatedBefore sampleSnapshot ⟨[⟨none, some "a.c", [.insertion 1]⟩]⟩
  partition := ⟨[], ["a.c"], [], []⟩

theorem wellFormed_repeatedBefore : repeatedBefore.WellFormed := by
  decide +kernel

theorem wellFormed_repeatedOutcome : repeatedOutcome.snapshot.WellFormed := by
  decide +kernel

theorem alongDiff_repeated :
    alongDiff repeatedBefore sampleSnapshot partialDiff = .ok repeatedOutcome := by
  refine alongDiff_eq_ok_iff.mpr ⟨⟨[⟨none, some "a.c", [.insertion 1]⟩]⟩, by rfl, ?_⟩
  refine alongPatch_eq_ok_iff.mpr ⟨by decide +kernel, rfl, Snapshot.build_eq_ok_iff.mpr ?_⟩
  exact ⟨wellFormed_repeatedOutcome, by decide +kernel, by decide +kernel, rfl⟩

theorem alongDiff_again_repeated :
    repeatedBefore.Constructed ∧
      alongDiff repeatedBefore sampleSnapshot partialDiff = .ok repeatedOutcome ∧
      ∃ again, alongDiff repeatedOutcome.snapshot sampleSnapshot partialDiff = .ok again ∧
        Repeats sampleSnapshot repeatedOutcome again := by
  have hbefore : repeatedBefore.Constructed :=
    .read (wellFormed_repeatedBefore.read_toJson (by decide))
  exact ⟨hbefore, alongDiff_repeated, alongDiff_again hbefore alongDiff_repeated⟩

end CallAtlas.Merge
