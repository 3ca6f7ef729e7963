import CallAtlas.Proofs.Merge.Layout
import CallAtlas.Proofs.Patch.Copy
import CallAtlas.Proofs.Rolling

/-!
# Files that are copied

A merge goes by the paths that the sections of a diff name, and a section that
copies a file names it as it names one that is renamed. So a file that is copied
counts as gone when the later build does not have it, although the diff leaves
it where it is.
-/

namespace CallAtlas.Merge

open Extraction (sampleSnapshot wellFormed_sample assemble_sample)
open Patch (Written.Copy)

section

variable {before after : Snapshot} {patch : Patch} {outcome : Outcome}

theorem mem_paths_of_mem {f : FilePatch} (hf : f ∈ patch.files) {path : String}
    (h : f.old = some path ∨ f.new = some path) : path ∈ patch.paths := by
  rw [Patch.paths, Ascending.mem_ofList, List.mem_flatMap]
  refine ⟨f, hf, ?_⟩
  rw [FilePatch.paths, List.mem_append, Option.mem_toList, Option.mem_toList]
  exact h

/-- A file that the patch does not name stays in the list. -/
theorem mem_files_of_not_named (hbefore : before.WellFormed)
    (h : alongPatch before after patch = .ok outcome) {path : String} (hfile : path ∈ before.files)
    (hnamed : path ∉ patch.paths) : path ∈ outcome.snapshot.files := by
  have hkept : path ∉ outcome.partition.touched := by
    rw [(alongPatch_eq_ok_iff.mp h).1, Partition.mem_touched]
    exact fun htouched => hnamed htouched.1
  rw [files_alongPatch hbefore h, List.mem_append]
  exact Or.inl (List.mem_eraseDups.mpr (List.mem_filter.mpr ⟨hfile, by simpa using hkept⟩))

/-- A file that is copied and that the later build does not have is taken for
one that is deleted. Files that no section names stay as they are. -/
theorem deleted_of_copied (hbefore : before.Constructed) (hafter : after.Constructed)
    {c : Patch.Written.Copy} {diff : String} (hc : c.StandsIn diff)
    (h : alongDiff before after diff = .ok outcome) (hfile : c.source.path ∈ before.files)
    (hgone : c.source.path ∉ after.files) :
    c.source.path ∈ outcome.partition.deleted ∧
      c.source.path ∉ outcome.snapshot.files ∧
      outcome.snapshot.located.filter (·.path = c.source.path) = [] ∧
      ∀ path ∈ before.files, path ∉ outcome.partition.paths →
        path ∈ outcome.snapshot.files ∧
          outcome.snapshot.located.filter (·.path = path) =
            before.located.filter (·.path = path) := by
  obtain ⟨patch, hparse, hmerge⟩ := alongDiff_eq_ok_iff.mp h
  have hnamed : c.source.path ∈ patch.paths :=
    mem_paths_of_mem (Patch.patch_mem_of_standsIn hc hparse) (Or.inl rfl)
  have hpartition := (alongPatch_eq_ok_iff.mp hmerge).1
  have hunlisted := not_mem_files hbefore.wellFormed hmerge hnamed hgone
  refine ⟨?_, hunlisted, (wellFormed_alongPatch hmerge).filter_path_eq_nil hunlisted, ?_⟩
  · rw [hpartition, Partition.mem_deleted]
    exact ⟨hnamed, hfile, hgone⟩
  · intro path hpath hother
    rw [hpartition, Partition.mem_paths] at hother
    exact ⟨mem_files_of_not_named hbefore.wellFormed hmerge hpath hother,
      Rolling.located_of_not_named hbefore.wellFormed hafter.wellFormed hmerge hother⟩

end

/-! ## A file that is copied and nothing else -/

def sampleCopy : Patch.Written.Copy where
  source := ⟨⟨['a', '.', 'c'], by decide⟩, by decide, by rintro c ⟨⟩; decide⟩
  target := ⟨⟨['c', '.', 'c'], by decide⟩, by decide, by rintro c ⟨⟩; decide⟩
  no_mark := by decide
  above := [⟨⟨"similarity index 100%".toList, by decide⟩, by decide⟩]
  below := []
  hunks := []

def copyDiff : String :=
  "diff --git a/a.c b/c.c\nsimilarity index 100%\ncopy from a.c\ncopy to c.c\n"

def copyOutcome : Outcome where
  snapshot :=
    { files := ["b.c"]
      records := [⟨⟨0, ⟨"g()"⟩, ⟨1, 3⟩,
        [⟨.candidates [⟨14205690914439878966⟩, ⟨3790395259024606487⟩], 2, 5⟩]⟩,
        ⟨3790395259024606487⟩⟩]
      revision := "r2"
      index := [(⟨3790395259024606487⟩, 0)] }
  changes := .ofPatch sampleSnapshot (.empty "r2") ⟨[⟨some "a.c", some "c.c", []⟩]⟩
  partition := ⟨["a.c"], [], [], ["c.c"]⟩

theorem standsIn_sample : sampleCopy.StandsIn copyDiff :=
  ⟨[], [], by rfl, Text.ended_nil, ⟨⟨[]⟩, by rfl⟩, Or.inl rfl⟩

theorem alongDiff_copy_sample :
    alongDiff sampleSnapshot (.empty "r2") copyDiff = .ok copyOutcome := by
  refine alongDiff_eq_ok_iff.mpr ⟨⟨[⟨some "a.c", some "c.c", []⟩]⟩, by rfl, ?_⟩
  refine alongPatch_eq_ok_iff.mpr ⟨by decide +kernel, rfl, Snapshot.build_eq_ok_iff.mpr ?_⟩
  exact ⟨by decide +kernel, by decide +kernel, by decide +kernel, rfl⟩

theorem deleted_of_copied_sample :
    sampleSnapshot.Constructed ∧ (Snapshot.empty "r2").Constructed ∧
      sampleCopy.StandsIn copyDiff ∧
      alongDiff sampleSnapshot (.empty "r2") copyDiff = .ok copyOutcome ∧
      sampleCopy.source.path ∈ sampleSnapshot.files ∧
      sampleCopy.source.path ∉ (Snapshot.empty "r2").files ∧
      sampleCopy.source.path ∈ copyOutcome.partition.deleted ∧
      sampleCopy.source.path ∉ copyOutcome.snapshot.files ∧
      copyOutcome.snapshot.located.filter (·.path = sampleCopy.source.path) = [] ∧
      ∀ path ∈ sampleSnapshot.files, path ∉ copyOutcome.partition.paths →
        path ∈ copyOutcome.snapshot.files ∧
          copyOutcome.snapshot.located.filter (·.path = path) =
            sampleSnapshot.located.filter (·.path = path) := by
  have hbefore : sampleSnapshot.Constructed := .assembled assemble_sample
  have hafter : (Snapshot.empty "r2").Constructed := .empty "r2"
  have hfile : sampleCopy.source.path ∈ sampleSnapshot.files := by decide
  have hgone : sampleCopy.source.path ∉ (Snapshot.empty "r2").files := List.not_mem_nil
  exact ⟨hbefore, hafter, standsIn_sample, alongDiff_copy_sample, hfile, hgone,
    deleted_of_copied hbefore hafter standsIn_sample alongDiff_copy_sample hfile hgone⟩

/-- The diff says no more of the first file than that it is copied, and with
the merge its function is gone. -/
theorem copied_file_is_lost :
    Patch.parse copyDiff = .ok ⟨[sampleCopy.patch]⟩ ∧ sampleCopy.StandsIn copyDiff ∧
      sampleSnapshot.Constructed ∧ (Snapshot.empty "r2").Constructed ∧
      "a.c" ∈ sampleSnapshot.files ∧ "a.c" ∉ (Snapshot.empty "r2").files ∧
      alongDiff sampleSnapshot (.empty "r2") copyDiff = .ok copyOutcome ∧
      "a.c" ∉ copyOutcome.snapshot.files ∧
      (sampleSnapshot.functionsIn "a.c").length = 1 ∧
      copyOutcome.snapshot.functionsIn "a.c" = [] :=
  ⟨by rfl, standsIn_sample, .assembled assemble_sample, .empty "r2", by decide, by decide,
    alongDiff_copy_sample, by decide, by decide, by decide⟩

end CallAtlas.Merge
