import CallAtlas.Merge
import CallAtlas.Proofs.Distinct
import CallAtlas.Proofs.Snapshot.WellFormed

/-!
# The parts of a merge

A merge numbers the files of two snapshots anew while it goes through their
records. A file list only ever grows at its end, so a number once given keeps
its path, and what comes out is said without numbers: which files are listed in
which order, and which functions follow each other.
-/

namespace CallAtlas

/-! ## Partitions -/

namespace Partition

section

variable (paths : List String) (before after : Snapshot)

theorem mem_deleted {path : String} :
    path ∈ (ofPaths paths before after).deleted ↔
      path ∈ paths ∧ path ∈ before.files ∧ path ∉ after.files := by
  simp [ofPaths, Snapshot.hasFile_iff, Snapshot.hasFile_eq_false_iff]

theorem mem_inserted {path : String} :
    path ∈ (ofPaths paths before after).inserted ↔
      path ∈ paths ∧ path ∉ before.files ∧ path ∈ after.files := by
  simp [ofPaths, Snapshot.hasFile_iff, Snapshot.hasFile_eq_false_iff]

theorem mem_modified {path : String} :
    path ∈ (ofPaths paths before after).modified ↔
      path ∈ paths ∧ path ∈ before.files ∧ path ∈ after.files := by
  simp [ofPaths, Snapshot.hasFile_iff]

theorem mem_untracked {path : String} :
    path ∈ (ofPaths paths before after).untracked ↔
      path ∈ paths ∧ path ∉ before.files ∧ path ∉ after.files := by
  simp [ofPaths, Snapshot.hasFile_eq_false_iff]

theorem mem_changed {path : String} :
    path ∈ (ofPaths paths before after).changed ↔ path ∈ paths ∧ path ∈ after.files := by
  rw [changed, Ascending.mem_ofList, List.mem_append, mem_inserted, mem_modified]
  tauto

theorem mem_touched {path : String} :
    path ∈ (ofPaths paths before after).touched ↔
      path ∈ paths ∧ (path ∈ before.files ∨ path ∈ after.files) := by
  rw [touched, Ascending.mem_ofList, List.mem_append, mem_changed, mem_deleted]
  tauto

theorem mem_paths {path : String} :
    path ∈ (ofPaths paths before after).paths ↔ path ∈ paths := by
  rw [Partition.paths, Ascending.mem_ofList, List.mem_append, mem_touched, mem_untracked]
  tauto

end

theorem changed_subset_touched {p : Partition} {path : String} (h : path ∈ p.changed) :
    path ∈ p.touched := by
  rw [touched, Ascending.mem_ofList]
  exact List.mem_append_left _ h

end Partition

namespace Merge

open Snapshot (pathIn siteIn Site)

/-! ## Enlisting -/

theorem enlist_snd (files : List String) (path : String) :
    (enlist files path).2 = if path ∈ files then files else files ++ [path] := by
  rw [enlist]
  cases h : files.findIdx? fun p => p = path with
  | some place =>
      have hmem : path ∈ files := by
        obtain ⟨hlt, hpath, _⟩ := List.findIdx?_eq_some_iff_getElem.mp h
        exact of_decide_eq_true hpath ▸ List.getElem_mem hlt
      rw [if_pos hmem]
  | none =>
      have hmem : path ∉ files := by
        intro hmem
        have := List.findIdx?_eq_none_iff.mp h path hmem
        simp at this
      rw [if_neg hmem]

theorem getElem?_enlist (files : List String) (path : String) :
    (enlist files path).2[(enlist files path).1]? = some path := by
  rw [enlist]
  cases h : files.findIdx? fun p => p = path with
  | some place =>
      obtain ⟨hlt, hpath, _⟩ := List.findIdx?_eq_some_iff_getElem.mp h
      show files[place]? = some path
      rw [List.getElem?_eq_getElem hlt, of_decide_eq_true hpath]
  | none =>
      show (files ++ [path])[files.length]? = some path
      exact List.getElem?_concat_length

/-- Paths are enlisted in the order of their first appearance. -/
theorem enlistAll_eq (keep : String → Bool) (files paths : List String) :
    enlistAll keep files paths =
      files ++ ((paths.filter keep).filter (· ∉ files)).eraseDups := by
  induction paths generalizing files with
  | nil => simp [enlistAll]
  | cons path rest ih =>
      have hstep : enlistAll keep files (path :: rest) =
          enlistAll keep (if keep path then (enlist files path).2 else files) rest := rfl
      rw [hstep, ih]
      by_cases hkeep : keep path
      · rw [if_pos hkeep, enlist_snd, List.filter_cons_of_pos hkeep]
        by_cases hmem : path ∈ files
        · rw [if_pos hmem, List.filter_cons_of_neg (by simpa using hmem)]
        · have hrest : (rest.filter keep).filter (· ∉ files ++ [path]) =
              ((rest.filter keep).filter (· ∉ files)).filter fun p => !p == path := by
            simp only [List.filter_filter]
            apply List.filter_congr
            intro p _
            by_cases hp : p = path <;> simp [hp]
          rw [if_neg hmem, List.filter_cons_of_pos (by simpa using hmem), List.eraseDups_cons,
            hrest, List.append_assoc, List.singleton_append]
      · rw [if_neg hkeep, List.filter_cons_of_neg hkeep]

theorem nodup_enlistAll {keep : String → Bool} {files : List String} (h : files.Nodup)
    (paths : List String) : (enlistAll keep files paths).Nodup := by
  rw [enlistAll_eq, List.nodup_append]
  refine ⟨h, nodup_eraseDups _, ?_⟩
  rintro a ha b hb rfl
  have hnew := List.of_mem_filter (List.mem_eraseDups.mp hb)
  simp [ha] at hnew

/-! ## Moving records -/

theorem move_cons_of_keep {s : Snapshot} {keep : String → Bool} {r : Record}
    (h : keep (s.pathOf r)) (files : List String) (rest : List Record) :
    move s keep files (r :: rest) =
      ({ r.toBody with file := (enlist files (s.pathOf r)).1 } ::
        (move s keep (enlist files (s.pathOf r)).2 rest).1,
        (move s keep (enlist files (s.pathOf r)).2 rest).2) := by
  rw [move, if_pos h]

theorem move_cons_of_leave {s : Snapshot} {keep : String → Bool} {r : Record}
    (h : ¬ keep (s.pathOf r)) (files : List String) (rest : List Record) :
    move s keep files (r :: rest) = move s keep files rest := by
  rw [move, if_neg h]

theorem move_snd (s : Snapshot) (keep : String → Bool) (files : List String)
    (records : List Record) :
    (move s keep files records).2 = enlistAll keep files (records.map s.pathOf) := by
  induction records generalizing files with
  | nil => rfl
  | cons r rest ih =>
      have hstep : enlistAll keep files ((r :: rest).map s.pathOf) =
          enlistAll keep (if keep (s.pathOf r) then (enlist files (s.pathOf r)).2 else files)
            (rest.map s.pathOf) := rfl
      rw [hstep]
      by_cases hkeep : keep (s.pathOf r)
      · rw [move_cons_of_keep hkeep, if_pos hkeep, ← ih]
      · rw [move_cons_of_leave hkeep, if_neg hkeep, ih]

theorem move_extends (s : Snapshot) (keep : String → Bool) (files : List String)
    (records : List Record) : files <+: (move s keep files records).2 := by
  rw [move_snd, enlistAll_eq]
  exact List.prefix_append _ _

theorem getElem?_of_extends {files final : List String} (h : files <+: final) {file : Nat}
    {path : String} (hfile : files[file]? = some path) : final[file]? = some path := by
  obtain ⟨added, rfl⟩ := h
  rw [List.getElem?_append_left (List.getElem?_eq_some_iff.mp hfile).1, hfile]

/-- In the list that comes out, and in every list that extends it, moved
records have the paths they had. -/
theorem getElem?_move (s : Snapshot) (keep : String → Bool) {final : List String}
    (records : List Record) (files : List String)
    (hfinal : (move s keep files records).2 <+: final) :
    (move s keep files records).1.map
        (fun b => (final[b.file]?, b.signature, b.lines, b.callees)) =
      (records.filter fun r => keep (s.pathOf r)).map fun r =>
        (some (s.pathOf r), r.signature, r.lines, r.callees) := by
  induction records generalizing files with
  | nil => rfl
  | cons r rest ih =>
      rw [List.filter_cons]
      by_cases hkeep : keep (s.pathOf r)
      · rw [move_cons_of_keep hkeep] at hfinal ⊢
        have hgrow := (move_extends s keep _ rest).trans hfinal
        have hpath := getElem?_of_extends hgrow (getElem?_enlist files (s.pathOf r))
        rw [if_pos hkeep, List.map_cons, List.map_cons, ih _ hfinal, hpath]
      · rw [move_cons_of_leave hkeep] at hfinal ⊢
        rw [if_neg hkeep]
        exact ih files hfinal

/-- A moved body is numbered by the list that comes out, and by every list that
extends it. -/
theorem file_lt_of_mem_move (s : Snapshot) (keep : String → Bool) {files final : List String}
    (hfinal : (move s keep files s.records).2 <+: final) {b : Body}
    (hb : b ∈ (move s keep files s.records).1) : b.file < final.length := by
  have hmem := List.mem_map_of_mem
    (f := fun b : Body => (final[b.file]?, b.signature, b.lines, b.callees)) hb
  rw [getElem?_move s keep s.records files hfinal] at hmem
  obtain ⟨r, -, heq⟩ := List.mem_map.mp hmem
  exact (List.getElem?_eq_some_iff.mp (congrArg Prod.fst heq).symm).1

theorem map_siteIn_move (s : Snapshot) (keep : String → Bool) {final : List String}
    (files : List String) (hfinal : (move s keep files s.records).2 <+: final) :
    (move s keep files s.records).1.map (siteIn final) =
      s.sites.filter fun site => keep site.path := by
  have h := congrArg (List.map fun (path?, signature, lines, callees) =>
    (⟨Option.getD path? "", signature, lines, callees⟩ : Site))
    (getElem?_move s keep s.records files hfinal)
  rw [List.map_map, List.map_map] at h
  rw [Snapshot.sites, Snapshot.bodies, List.map_map, List.filter_map]
  exact h

/-! ## The parts together -/

/-- Whatever is merged, every body that comes out names a listed file. -/
theorem file_lt_of_mem_parts {before after : Snapshot} {p : Partition} {b : Body}
    (hb : b ∈ (parts before after p).2) : b.file < (parts before after p).1.length := by
  rcases List.mem_append.mp hb with hleft | hadded
  · exact file_lt_of_mem_move before _ (move_extends after _ _ _) hleft
  · exact file_lt_of_mem_move after _ List.prefix_rfl hadded

section

variable {before : Snapshot} (after : Snapshot) (p : Partition)

/-- The files that are left of the earlier snapshot. -/
def leftFiles (before : Snapshot) (p : Partition) : List String :=
  (before.files.filter (· ∉ p.touched)).eraseDups

/-- The functions that are taken over from the later snapshot. -/
def added (after : Snapshot) (p : Partition) : List Site :=
  after.sites.filter (·.path ∈ p.changed)

theorem enlistAll_left (hbefore : before.WellFormed) :
    enlistAll (fun path => !p.touched.contains path) (leftFiles before p)
      (before.records.map before.pathOf) = leftFiles before p := by
  rw [enlistAll_eq, List.filter_filter, List.filter_eq_nil_iff.mpr, List.eraseDups_nil,
    List.append_nil]
  intro path hpath
  obtain ⟨r, hr, rfl⟩ := List.mem_map.mp hpath
  have hmem : before.pathOf r ∈ before.files := Snapshot.pathIn_mem (hbefore.file_lt r hr)
  simp [leftFiles, hmem]

theorem parts_eq (hbefore : before.WellFormed) :
    parts before after p =
      ((move after p.changed.contains (leftFiles before p) after.records).2,
        (move before (fun path => !p.touched.contains path) (leftFiles before p)
          before.records).1 ++
        (move after p.changed.contains (leftFiles before p) after.records).1) := by
  have hfiles : enlistAll (fun path => !p.touched.contains path) [] before.files =
      leftFiles before p := by
    rw [enlistAll_eq, leftFiles]
    simp
  have hleft := move_snd before (fun path => !p.touched.contains path) (leftFiles before p)
    before.records
  rw [enlistAll_left p hbefore] at hleft
  rw [parts, hfiles]
  dsimp only
  rw [hleft]

/-- What is left of the files, then the files of what is added. -/
theorem parts_files (hbefore : before.WellFormed) :
    (parts before after p).1 =
      leftFiles before p ++ ((added after p).map (·.path)).eraseDups := by
  have hnew : ((after.records.map after.pathOf).filter p.changed.contains).filter
      (· ∉ leftFiles before p) = (added after p).map (·.path) := by
    have hpaths : after.records.map after.pathOf = after.sites.map (·.path) := by
      rw [Snapshot.sites, Snapshot.bodies, List.map_map, List.map_map]
      rfl
    rw [hpaths, List.filter_map, List.filter_map, List.filter_filter, added]
    congr 1
    apply List.filter_congr
    intro site _
    by_cases hchanged : site.path ∈ p.changed
    · have htouched := Partition.changed_subset_touched hchanged
      simp [leftFiles, hchanged, htouched]
    · simp [hchanged]
  rw [parts_eq after p hbefore, move_snd, enlistAll_eq, hnew]

/-- What is left of the functions, then what is added. -/
theorem map_siteIn_parts (hbefore : before.WellFormed) :
    (parts before after p).2.map (siteIn (parts before after p).1) =
      before.sites.filter (·.path ∉ p.touched) ++ added after p := by
  have hleft : (move before (fun path => !p.touched.contains path) (leftFiles before p)
      before.records).2 <+:
      (move after p.changed.contains (leftFiles before p) after.records).2 := by
    rw [move_snd, enlistAll_left p hbefore]
    exact move_extends _ _ _ _
  rw [parts_eq after p hbefore, List.map_append, map_siteIn_move _ _ _ hleft,
    map_siteIn_move _ _ _ List.prefix_rfl, added]
  simp

end

/-! ## The merged snapshot -/

theorem alongPatch_eq_ok_iff {before after : Snapshot} {patch : Patch} {outcome : Outcome} :
    alongPatch before after patch = .ok outcome ↔
      outcome.partition = .ofPaths patch.paths before after ∧
        outcome.changes = .ofPatch before after patch ∧
        Snapshot.build (parts before after outcome.partition).1
          (parts before after outcome.partition).2 after.revision = .ok outcome.snapshot := by
  have hmerge : alongPatch before after patch =
      (Snapshot.build (parts before after (.ofPaths patch.paths before after)).1
        (parts before after (.ofPaths patch.paths before after)).2 after.revision).map fun s =>
          ⟨s, .ofPatch before after patch, .ofPaths patch.paths before after⟩ := by
    rw [alongPatch]
    dsimp only
    cases Snapshot.build (parts before after (.ofPaths patch.paths before after)).1
      (parts before after (.ofPaths patch.paths before after)).2 after.revision <;> rfl
  rw [hmerge]
  obtain ⟨s, changes, partition⟩ := outcome
  constructor
  · intro h
    cases hbuild : Snapshot.build (parts before after (.ofPaths patch.paths before after)).1
        (parts before after (.ofPaths patch.paths before after)).2 after.revision with
    | error why =>
        rw [hbuild] at h
        cases h
    | ok merged =>
        rw [hbuild] at h
        cases h
        exact ⟨rfl, rfl, hbuild⟩
  · rintro ⟨rfl, rfl, hbuild⟩
    rw [hbuild]
    rfl

section

variable {before after : Snapshot} {patch : Patch} {outcome : Outcome}

theorem wellFormed_alongPatch (h : alongPatch before after patch = .ok outcome) :
    outcome.snapshot.WellFormed :=
  (Snapshot.build_eq_ok_iff.mp (alongPatch_eq_ok_iff.mp h).2.2).1

theorem files_alongPatch (hbefore : before.WellFormed)
    (h : alongPatch before after patch = .ok outcome) :
    outcome.snapshot.files = leftFiles before outcome.partition ++
      ((added after outcome.partition).map (·.path)).eraseDups := by
  obtain ⟨_, hfiles, _⟩ := Snapshot.build_eq_ok_iff.mp (alongPatch_eq_ok_iff.mp h).2.2
  rw [hfiles, parts_files after outcome.partition hbefore]

theorem nodup_files_alongPatch (hbefore : before.WellFormed)
    (h : alongPatch before after patch = .ok outcome) : outcome.snapshot.files.Nodup := by
  obtain ⟨_, hfiles, _⟩ := Snapshot.build_eq_ok_iff.mp (alongPatch_eq_ok_iff.mp h).2.2
  rw [hfiles, parts_eq after outcome.partition hbefore, move_snd]
  exact nodup_enlistAll (nodup_eraseDups _) _

theorem sites_alongPatch (hbefore : before.WellFormed)
    (h : alongPatch before after patch = .ok outcome) :
    outcome.snapshot.sites = before.sites.filter (·.path ∉ outcome.partition.touched) ++
      added after outcome.partition := by
  obtain ⟨_, hfiles, hbodies, _⟩ := Snapshot.build_eq_ok_iff.mp (alongPatch_eq_ok_iff.mp h).2.2
  rw [Snapshot.sites, hfiles, hbodies, map_siteIn_parts after outcome.partition hbefore]

/-- Functions go into the merged snapshot with the keys they had. -/
theorem located_alongPatch (hbefore : before.WellFormed) (hafter : after.WellFormed)
    (h : alongPatch before after patch = .ok outcome) :
    outcome.snapshot.located = before.located.filter (·.path ∉ outcome.partition.touched) ++
      after.located.filter (·.path ∈ outcome.partition.changed) := by
  have hother : ∀ a ∈ before.sites.filter (·.path ∉ outcome.partition.touched),
      ∀ b ∈ added after outcome.partition, b.path ≠ a.path := by
    intro a ha b hb heq
    have hleft : a.path ∉ outcome.partition.touched := by simpa using List.of_mem_filter ha
    have hchanged : b.path ∈ outcome.partition.changed := by simpa using List.of_mem_filter hb
    exact hleft (heq ▸ Partition.changed_subset_touched hchanged)
  rw [(wellFormed_alongPatch h).located_eq, sites_alongPatch hbefore h,
    Snapshot.keyed_append hother, added,
    Snapshot.keyed_filter (fun path => decide (path ∉ outcome.partition.touched)),
    Snapshot.keyed_filter (fun path => decide (path ∈ outcome.partition.changed)),
    ← hbefore.located_eq, ← hafter.located_eq]

end

end Merge

end CallAtlas
